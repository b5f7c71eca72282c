import Scriptlet.Proofs.Parser.ViablePrefix

/-!
# Programs one after the other

A clean program that was not cut off by the end of its tokens may stand in front of
other tokens: its statements are read as before, and what follows is read as if it
stood alone, whatever is wrong with it.  Two things can go wrong at the border.  A
statement without a semicolon could be continued, so the tokens behind it have to
begin with an inert token.  And a statement with a semicolon must have taken it as
its own end: an expression never ends with one.
-/

namespace Scriptlet

/-- The last token read on the way from the first list to the second is no semicolon. -/
def Unclosed (input rest : List Token) : Prop :=
  ∀ before mark, input = before ++ mark :: rest → mark.kind ≠ .semicolon

theorem unclosed_refl (input : List Token) : Unclosed input input := by
  intro before mark hinput
  have hlength := congrArg List.length hinput
  simp at hlength
  omega

theorem unclosed_of_suffix {token : Token} {input rest : List Token}
    (hsuffix : token :: rest <:+ input) (hkind : token.kind ≠ .semicolon) :
    Unclosed input rest := by
  intro before mark hinput
  obtain ⟨earlier, rfl⟩ := hsuffix
  obtain ⟨_, hcons⟩ := List.append_inj' hinput (by simp)
  obtain ⟨rfl, _⟩ := List.cons.inj hcons
  exact hkind

theorem Unclosed.trans {input middle rest : List Token} (hfirst : Unclosed input middle)
    (hsuffix : middle <:+ input) (hnext : Unclosed middle rest) (hrest : rest <:+ middle) :
    Unclosed input rest := by
  obtain ⟨more, rfl⟩ := hrest
  rcases List.eq_nil_or_concat more with rfl | ⟨others, last, rfl⟩
  · exact hfirst
  · have hlast : last.kind ≠ .semicolon := by
      apply hnext others last
      simp
    apply unclosed_of_suffix _ hlast
    apply List.IsSuffix.trans _ hsuffix
    exact ⟨others, by simp⟩

namespace Step

variable {α β : Type} {input : List Token}

/-- A whole reading does not end with a semicolon. -/
def LeavesOpen (step : Step α input) : Prop :=
  ∀ value rest, step.Reads True value rest → Unclosed input rest

theorem leavesOpen_pure (value : α) : (pure value : Step α input).LeavesOpen := by
  intro result rest hread
  obtain ⟨_, rfl⟩ := reads_pure_iff.mp hread
  exact unclosed_refl rest

theorem leavesOpen_fail (value : α) (fault : Fault) :
    (fail value fault : Step α input).LeavesOpen := by
  intro result rest hread
  exact absurd hread not_reads_fail

theorem LeavesOpen.behind {token : Token} {step : Step α input}
    (hkind : token.kind ≠ .semicolon) (hstep : step.LeavesOpen) :
    (step.behind token).LeavesOpen := by
  intro value rest hread
  rw [reads_behind_iff] at hread
  have hsuffix : input <:+ token :: input := List.suffix_cons token input
  exact (unclosed_of_suffix List.suffix_rfl hkind).trans hsuffix (hstep value rest hread)
    hread.suffix

theorem LeavesOpen.map {f : α → β} {step : Step α input} (hstep : step.LeavesOpen) :
    (step.map f).LeavesOpen := by
  intro value rest hread
  obtain ⟨before, hread, _⟩ := reads_map_iff.mp hread
  exact hstep before rest hread

theorem LeavesOpen.bind {first : Step α input}
    {next : α → (rest : List Token) → rest.length ≤ input.length → Step β rest}
    (hfirst : first.LeavesOpen) (hnext : ∀ value rest hle, (next value rest hle).LeavesOpen) :
    (first.bind next).LeavesOpen := by
  intro result rest hread
  obtain ⟨value, middle, hle, hvalue, hresult⟩ := reads_bind_iff.mp hread
  exact (hfirst value middle hvalue).trans hvalue.suffix
    (hnext value middle hle result rest hresult) hresult.suffix

theorem LeavesOpen.andThen {first : Step (Option α) input} {otherwise : β}
    {next : α → (rest : List Token) → rest.length ≤ input.length → Step β rest}
    (hfirst : first.LeavesOpen) (hnext : ∀ value rest hle, (next value rest hle).LeavesOpen) :
    (first.andThen otherwise next).LeavesOpen := by
  apply hfirst.bind
  intro found rest hle
  cases found with
  | none => exact leavesOpen_pure otherwise
  | some value => exact hnext value rest hle

theorem leavesOpen_expect {endLine : Nat} {kind : Kind} (hkind : kind ≠ .semicolon)
    (input : List Token) : (expect endLine kind input).LeavesOpen := by
  intro found rest hread
  obtain ⟨token, _, rfl, rfl⟩ := reads_expect_iff.mp hread
  exact unclosed_of_suffix List.suffix_rfl hkind

theorem leavesOpen_accept {kind : Kind} (hkind : kind ≠ .semicolon) (input : List Token) :
    (accept kind input).LeavesOpen := by
  intro found rest hread
  rcases reads_accept_iff.mp hread with ⟨token, _, rfl, rfl⟩ | ⟨_, rfl, _⟩
  · exact unclosed_of_suffix List.suffix_rfl hkind
  · exact unclosed_refl rest

end Step

namespace Parser

open Step Reader

variable {endLine : Nat}

theorem leavesOpen_block (mark : Token) (input : List Token) :
    (block endLine mark input).LeavesOpen := by
  intro value rest hread
  rw [block, reads_bind_iff] at hread
  obtain ⟨statements, middle, _, hstatements, hread⟩ := hread
  obtain ⟨_, hadvance, _⟩ := reads_map_iff.mp hread
  have hends := (predictive_sequence endLine .block input).stops _ _ hstatements.loosen
  rcases reads_advance_iff.mp hadvance with ⟨closing, rfl⟩ | ⟨_, _, hcut⟩
  · apply unclosed_of_suffix hstatements.suffix
    intro hkind
    simp [Ends, hkind, Scope.endsAt] at hends
  · exact absurd trivial hcut

theorem leavesOpen_braced (input : List Token) : (braced endLine input).LeavesOpen := by
  rw [braced]
  apply (leavesOpen_expect (by decide) input).andThen
  intro mark rest hle
  exact (leavesOpen_block mark rest).map

theorem leavesOpen_operand_name (token : Token) (input : List Token) :
    (operand endLine .name token input).LeavesOpen := by
  rw [operand]
  exact leavesOpen_pure _

theorem leavesOpen_operand_integer (token : Token) (input : List Token) :
    (operand endLine .integer token input).LeavesOpen := by
  rw [operand, integer]
  split
  · exact leavesOpen_pure _
  · exact leavesOpen_fail _ _

theorem leavesOpen_operand_boolean (token : Token) (input : List Token) :
    (operand endLine .boolean token input).LeavesOpen := by
  rw [operand]
  exact leavesOpen_pure _

theorem leavesOpen_operand_unary {token : Token} {input : List Token}
    (hinner : (expression endLine .unary input).LeavesOpen) :
    (operand endLine .unary token input).LeavesOpen := by
  rw [operand_unary]
  exact hinner.map

theorem leavesOpen_operand_group {token : Token} {input : List Token}
    (hinner : (enclosed endLine input).LeavesOpen) :
    (operand endLine .group token input).LeavesOpen := by
  rw [operand_group]
  exact hinner.map

theorem leavesOpen_operand_conditional {token : Token} {input : List Token}
    (henclosed : ∀ rest : List Token, rest.length ≤ input.length →
      (enclosed endLine rest).LeavesOpen) :
    (operand endLine .conditional token input).LeavesOpen := by
  rw [operand_conditional]
  apply (leavesOpen_expect (by decide) input).andThen
  intro _ afterOpening hleOpening
  apply (henclosed afterOpening hleOpening).andThen
  intro condition afterCondition hleCondition
  apply (leavesOpen_braced afterCondition).andThen
  intro consequence afterConsequence hleConsequence
  apply (leavesOpen_accept (by decide) afterConsequence).bind
  intro word afterWord hleWord
  cases word with
  | none => exact leavesOpen_pure _
  | some word =>
      apply (leavesOpen_braced afterWord).andThen
      intro alternative rest hle
      exact leavesOpen_pure _

theorem leavesOpen_enclosed {input : List Token}
    (hinner : (expression endLine .lowest input).LeavesOpen) :
    (enclosed endLine input).LeavesOpen := by
  rw [enclosed]
  apply hinner.bind
  intro inner rest hle
  exact (leavesOpen_expect (by decide) rest).map

theorem not_reads_expressionFrom_semicolon {floor : Precedence} {token : Token} {input : List Token}
    (hkind : token.kind = .semicolon) (whole : Prop) (value : Expr) (rest : List Token) :
    ¬ (expressionFrom endLine floor token input).Reads whole value rest := by
  have hopening : token.kind.opening? = none := by simp [hkind, Kind.opening?]
  rw [expressionFrom, hopening]
  exact not_reads_fail

theorem leavesOpen_expression_nil (floor : Precedence) :
    (expression endLine floor []).LeavesOpen := by
  intro value rest hread
  have hfaults := hread.faults_eq
  simp [expression] at hfaults

theorem leavesOpen_expression_cons {floor : Precedence} {token : Token} {input : List Token}
    (hfrom : (expressionFrom endLine floor token input).LeavesOpen) :
    (expression endLine floor (token :: input)).LeavesOpen := by
  rw [expression]
  by_cases hkind : token.kind = .semicolon
  · intro value rest hread
    rw [reads_behind_iff] at hread
    exact absurd hread (not_reads_expressionFrom_semicolon hkind _ value rest)
  · exact hfrom.behind hkind

theorem leavesOpen_expressionFrom_none {floor : Precedence} {token : Token} {input : List Token}
    (hopening : token.kind.opening? = none) :
    (expressionFrom endLine floor token input).LeavesOpen := by
  rw [expressionFrom, hopening]
  exact leavesOpen_fail _ _

theorem leavesOpen_expressionFrom_some {floor : Precedence} {token : Token} {input : List Token}
    {opening : Opening} (hopening : token.kind.opening? = some opening)
    (hoperand : (operand endLine opening token input).LeavesOpen)
    (hchain : ∀ left (rest : List Token), rest.length ≤ input.length →
      (chain endLine floor left rest).LeavesOpen) :
    (expressionFrom endLine floor token input).LeavesOpen := by
  rw [expressionFrom, hopening]
  exact hoperand.bind hchain

theorem leavesOpen_chain_stop {floor : Precedence} {left : Expr} {input : List Token}
    (hstops : Stops floor input) : (chain endLine floor left input).LeavesOpen := by
  rw [chain_of_stops hstops]
  exact leavesOpen_pure left

theorem leavesOpen_chain_operator {floor : Precedence} {left : Expr} {token : Token}
    {input : List Token} (hfloor : floor < token.kind.precedence)
    (hright : (expression endLine token.kind.precedence input).LeavesOpen)
    (hchain : ∀ right (rest : List Token), rest.length ≤ input.length →
      (chain endLine floor (.binary token left token.literal right) rest).LeavesOpen) :
    (chain endLine floor left (token :: input)).LeavesOpen := by
  rw [chain, if_pos hfloor]
  apply (hright.bind hchain).behind
  intro hkind
  rw [hkind] at hfloor
  exact Nat.not_lt_zero _ hfloor

def leavesOpenMotive (endLine : Nat) : Motive where
  expression floor input := (expression endLine floor input).LeavesOpen
  expressionFrom floor token input := (expressionFrom endLine floor token input).LeavesOpen
  operand opening token input := (operand endLine opening token input).LeavesOpen
  enclosed input := (enclosed endLine input).LeavesOpen
  chain floor left input := (chain endLine floor left input).LeavesOpen
  -- Blocks need no hypothesis, so nothing has to be said about statements.
  braced _ := True
  block _ _ := True
  statement _ _ := True
  sequence _ _ := True

theorem leavesOpen_cases (endLine : Nat) : (leavesOpenMotive endLine).Cases where
  expression_nil := leavesOpen_expression_nil _
  expression_cons := leavesOpen_expression_cons
  expressionFrom_none := leavesOpen_expressionFrom_none
  expressionFrom_some := leavesOpen_expressionFrom_some
  operand_name := leavesOpen_operand_name _ _
  operand_integer := leavesOpen_operand_integer _ _
  operand_boolean := leavesOpen_operand_boolean _ _
  operand_unary := leavesOpen_operand_unary
  operand_group := leavesOpen_operand_group
  operand_conditional henclosed _ := leavesOpen_operand_conditional henclosed
  enclosed_of_expression := leavesOpen_enclosed
  braced_of_block _ := trivial
  chain_stop := leavesOpen_chain_stop
  chain_operator := leavesOpen_chain_operator
  block_of_sequence _ := trivial
  statement_binding _ := trivial
  statement_result _ := trivial
  statement_expression _ _ _ := trivial
  sequence_stop _ := trivial
  sequence_cons _ _ _ := trivial

theorem leavesOpen_expressionFrom (endLine : Nat) (floor : Precedence) (token : Token)
    (input : List Token) : (expressionFrom endLine floor token input).LeavesOpen :=
  (leavesOpen_cases endLine).holds.expressionFrom floor token input

/-! ## Statements in front of other tokens -/

def Closed (tokens : List Token) : Prop :=
  ∃ mark, tokens.getLast? = some mark ∧ mark.kind = .semicolon

theorem Closed.of_suffix {tokens rest : List Token} (hclosed : Closed tokens)
    (hsuffix : rest <:+ tokens) (hrest : rest ≠ []) : Closed rest := by
  obtain ⟨earlier, rfl⟩ := hsuffix
  obtain ⟨mark, hlast, hkind⟩ := hclosed
  refine ⟨mark, ?_, hkind⟩
  rw [List.getLast?_append, List.getLast?_eq_some_getLast hrest, Option.some_or] at hlast
  rw [List.getLast?_eq_some_getLast hrest, hlast]

theorem Closed.not_unclosed {tokens : List Token} (hclosed : Closed tokens) :
    ¬ Unclosed tokens [] := by
  obtain ⟨mark, hlast, hkind⟩ := hclosed
  obtain ⟨before, hbefore⟩ := List.getLast?_eq_some_iff.mp hlast
  intro hunclosed
  exact hunclosed before mark hbefore hkind

theorem opensStatement_of_reads {token : Token} {input rest : List Token} {whole : Prop}
    {value : Option Stmt} (hread : (statement endLine token input).Reads whole value rest) :
    OpensStatement token := by
  by_contra hopens
  obtain ⟨hlet, hreturn, hoperand⟩ := not_or.mp hopens |>.imp_right not_or.mp
  obtain ⟨fault, _, hfails⟩ := fails_of_not_opensOperand hoperand
  rw [statement_eq_expression hlet hreturn] at hread
  obtain ⟨value, middle, _, hvalue, _⟩ := reads_bind_iff.mp hread
  have hfault := hfails .lowest input
  rw [Fails, hvalue.faults_eq] at hfault
  contradiction

theorem reads_skipStatement_append {input : List Token} {value : Unit}
    (hread : (skipStatement input).Reads True value []) (other : List Token) :
    (skipStatement (input ++ other)).Reads True value other := by
  rcases reads_skipStatement_iff.mp hread with ⟨skipped, mark, hskipped, hmark, rfl⟩ | ⟨hcut, _⟩
  · exact reads_skipStatement_iff.mpr (.inl ⟨skipped, mark, hskipped, hmark, by simp⟩)
  · exact absurd trivial hcut

theorem reads_expressionStatement_append {token : Token} {input : List Token}
    {value : Option Stmt} (hlet : token.kind ≠ .letWord) (hreturn : token.kind ≠ .returnWord)
    (hread : (statement endLine token input).Reads True value [])
    (hclosed : Closed (token :: input)) (other : List Token) :
    (statement endLine token (input ++ other)).Reads True value other := by
  have hopens := opensStatement_of_reads hread
  have hoperand : OpensOperand token := (hopens.resolve_left hlet).resolve_left hreturn
  rw [statement_eq_expression hlet hreturn] at hread ⊢
  obtain ⟨result, middle, _, hresult, hread⟩ := reads_bind_iff.mp hread
  obtain ⟨found, haccept, rfl⟩ := reads_map_iff.mp hread
  rcases reads_accept_iff.mp haccept with ⟨mark, rfl, hkind, rfl⟩ | ⟨_, rfl, _⟩
  · obtain ⟨consumed, rfl, hframe⟩ :=
      (predictive_expressionFrom hoperand .lowest input).framed _ _ hresult
    have hresult := hframe (mark :: other) (replaces_cons mark [] other) trivial
    have htaken : (accept .semicolon (mark :: other)).Reads True (some mark) other :=
      reads_accept_iff.mpr (.inl ⟨mark, rfl, hkind, rfl⟩)
    rw [List.append_assoc, List.singleton_append]
    exact reads_bind_iff.mpr ⟨result, mark :: other, hresult.length_le, hresult,
      reads_map_iff.mpr ⟨some mark, htaken, rfl⟩⟩
  · -- Without the semicolon the whole statement would be an expression.
    have hkind : token.kind ≠ .semicolon := by
      intro hkind
      exact not_reads_expressionFrom_semicolon hkind _ _ _ hresult
    have hopen := (leavesOpen_expressionFrom endLine .lowest token input).behind hkind
    exact absurd (hopen result [] (reads_behind_iff.mpr hresult)) hclosed.not_unclosed

theorem reads_statement_append_of_closed {token : Token} {input : List Token}
    {value : Option Stmt} (hread : (statement endLine token input).Reads True value [])
    (hclosed : Closed (token :: input)) (other : List Token) :
    (statement endLine token (input ++ other)).Reads True value other := by
  by_cases hlet : token.kind = .letWord
  · obtain ⟨name, sign, afterSign, rfl, hname, hsign, rfl, hskip⟩ :=
      exists_of_reads_binding hlet hread
    exact reads_statement_binding hlet hname hsign (reads_skipStatement_append hskip other)
  · by_cases hreturn : token.kind = .returnWord
    · rw [statement, hreturn] at hread
      obtain ⟨_, hskip, rfl⟩ := reads_map_iff.mp hread
      exact reads_statement_result hreturn (reads_skipStatement_append hskip other)
    · exact reads_expressionStatement_append hlet hreturn hread hclosed other

theorem reads_statement_append {token : Token} {input rest other : List Token}
    {value : Option Stmt} (hread : (statement endLine token input).Reads True value rest)
    (hborder : rest = [] → Closed (token :: input) ∨ Settled other) :
    (statement endLine token (input ++ other)).Reads True value (rest ++ other) := by
  have hopens := opensStatement_of_reads hread
  obtain ⟨consumed, hinput, hframe⟩ :=
    (predictive_statement hopens input).framed value rest hread
  cases rest with
  | nil =>
      rcases hborder rfl with hclosed | hsettled
      · exact reads_statement_append_of_closed hread hclosed other
      · rw [hinput, List.append_nil]
        exact hframe other (hsettled.replaces []) trivial
  | cons next tail =>
      rw [hinput, List.append_assoc]
      exact hframe _ (replaces_cons next tail (tail ++ other)) trivial

theorem sequence_cons_of_reads {scope : Scope} {token : Token} {input rest : List Token}
    {whole : Prop} {head : Option Stmt} (hends : ¬ scope.endsAt token.kind = true)
    (hhead : (statement endLine token input).Reads whole head rest) :
    (sequence endLine scope (token :: input)).value =
        head.toList ++ (sequence endLine scope rest).value ∧
      (sequence endLine scope (token :: input)).faults =
        (sequence endLine scope rest).faults := by
  obtain ⟨hfaults, rfl, rfl, _⟩ := hhead
  rw [sequence, if_neg hends]
  simp [Step.behind, Step.bind, Step.map, hfaults]

theorem sequence_append {first second : List Token} {statements : List Stmt}
    (hread : (sequence endLine .program first).Reads True statements [])
    (hborder : first = [] ∨ Closed first ∨ Settled second) :
    (sequence endLine .program (first ++ second)).value =
        statements ++ (sequence endLine .program second).value ∧
      (sequence endLine .program (first ++ second)).faults =
        (sequence endLine .program second).faults := by
  induction hlength : first.length using Nat.strongRecOn generalizing first statements with
  | ind length ih =>
      cases first with
      | nil =>
          rw [sequence] at hread
          obtain ⟨rfl, _⟩ := reads_pure_iff.mp hread
          simp
      | cons token input =>
          have hborder := hborder.resolve_left (List.cons_ne_nil token input)
          have hends : ¬ Scope.program.endsAt token.kind = true := by
            intro hends
            have hstop := hread.rest_eq
            simp [sequence, hends, Step.pure] at hstop
          rw [sequence, if_neg hends, reads_behind_iff] at hread
          obtain ⟨head, middle, hle, hhead, hread⟩ := reads_bind_iff.mp hread
          obtain ⟨tail, htail, rfl⟩ := reads_map_iff.mp hread
          have hnext : middle = [] ∨ Closed middle ∨ Settled second := by
            by_cases hmiddle : middle = []
            · exact .inl hmiddle
            · refine .inr (hborder.imp_left fun hclosed => hclosed.of_suffix ?_ hmiddle)
              exact hhead.suffix.trans (List.suffix_cons token input)
          have hshorter : middle.length < length := by
            simp only [List.length_cons] at hlength
            omega
          obtain ⟨hvalue, hfaults⟩ := ih _ hshorter htail hnext rfl
          have hwhole := reads_statement_append hhead fun _ => hborder
          obtain ⟨hconsValue, hconsFaults⟩ := sequence_cons_of_reads hends hwhole
          constructor
          · rw [List.cons_append, hconsValue, hvalue, List.append_assoc]
          · rw [List.cons_append, hconsFaults, hfaults]

theorem ne_nil_of_reads_sequence {tokens rest : List Token} {statements : List Stmt} {whole : Prop}
    (hread : (sequence endLine .program tokens).Reads whole statements rest)
    (hstatements : statements ≠ []) :
    ∃ token input, tokens = token :: input ∧ ¬ Scope.program.endsAt token.kind = true := by
  cases tokens with
  | nil =>
      rw [sequence] at hread
      exact absurd (reads_pure_iff.mp hread).1 hstatements
  | cons token input =>
      refine ⟨token, input, rfl, ?_⟩
      intro hends
      rw [sequence, if_pos hends] at hread
      exact absurd (reads_pure_iff.mp hread).1 hstatements

/-- A clean program can be cut in front of any of its statements: what stands before the cut
is a clean and complete program, and what stands behind it is read as before. -/
theorem exists_cut_of_reads_sequence {tokens rest : List Token} {earlier later : List Stmt}
    {whole : Prop}
    (hread : (sequence endLine .program tokens).Reads whole (earlier ++ later) rest)
    (hlater : later ≠ []) :
    ∃ first second, tokens = first ++ second ∧
      (sequence endLine .program first).Reads True earlier [] ∧
      (sequence endLine .program second).Reads whole later rest := by
  induction hlength : tokens.length using Nat.strongRecOn generalizing tokens earlier with
  | ind length ih =>
      cases earlier with
      | nil =>
          refine ⟨[], tokens, rfl, ?_, hread⟩
          rw [sequence]
          exact reads_pure_iff.mpr ⟨rfl, rfl⟩
      | cons statement others =>
          obtain ⟨token, input, rfl, hends⟩ := ne_nil_of_reads_sequence hread (by simp)
          rw [sequence, if_neg hends, reads_behind_iff] at hread
          obtain ⟨head, middle, hle, hhead, hread⟩ := reads_bind_iff.mp hread
          obtain ⟨tail, htail, hstatements⟩ := reads_map_iff.mp hread
          obtain ⟨remaining, hearlier, hremaining⟩ : ∃ remaining,
              statement :: others = head.toList ++ remaining ∧ tail = remaining ++ later := by
            cases head with
            | none => exact ⟨statement :: others, rfl, hstatements.symm⟩
            | some first =>
                obtain ⟨rfl, hothers⟩ := List.cons.inj hstatements
                exact ⟨others, rfl, hothers.symm⟩
          subst hremaining
          have hshorter : middle.length < length := by
            simp only [List.length_cons] at hlength
            omega
          obtain ⟨first, second, rfl, hfirst, hsecond⟩ := ih _ hshorter htail rfl
          -- Statements stand behind this one, so it was not cut off by the end.
          obtain ⟨next, more, hmiddle, _⟩ := ne_nil_of_reads_sequence htail (by simp [hlater])
          have hwhole := hhead.whole_of_ne_nil (by simp [hmiddle])
          obtain ⟨consumed, rfl, hframe⟩ :=
            (predictive_statement (opensStatement_of_reads hhead) input).framed head _ hwhole
          have hreplaces : Replaces (first ++ second) first := by
            cases first with
            | nil => exact front_nil
            | cons next more => exact replaces_cons next _ _
          have hstatement := hframe first hreplaces trivial
          refine ⟨token :: (consumed ++ first), second, by simp, ?_, hsecond⟩
          rw [sequence, if_neg hends, reads_behind_iff, hearlier]
          exact reads_bind_iff.mpr ⟨head, first, hstatement.length_le, hstatement,
            reads_map_iff.mpr ⟨remaining, hfirst, rfl⟩⟩

theorem reads_of_clean_of_pulled {tokens : List Token}
    (hclean : (start tokens endLine).program.2.faults = [])
    (hpulled : (start tokens endLine).program.2.pulled = tokens.length + 2) :
    (sequence endLine .program tokens).Reads True
      (start tokens endLine).program.1.statements [] := by
  have hfaults : (sequence endLine .program tokens).faults = [] := hclean
  have htaken : 2 + (sequence endLine .program tokens).taken = tokens.length + 2 := hpulled
  have hle := (sequence endLine .program tokens).rest_suffix.length_le
  unfold taken at htaken
  rcases (sequence endLine .program tokens).overrun_at_end with hoverrun | hrest
  · refine ⟨hfaults, rfl, ?_, fun _ => hoverrun⟩
    apply List.length_eq_zero_iff.mp
    omega
  · refine ⟨hfaults, rfl, hrest, fun _ => ?_⟩
    rw [hrest] at htaken
    simp only [List.length_nil] at htaken
    omega

theorem clean_and_pulled_of_reads {tokens : List Token} {statements : List Stmt}
    (hread : (sequence endLine .program tokens).Reads True statements []) :
    (start tokens endLine).program.2.faults = [] ∧
      (start tokens endLine).program.2.pulled = tokens.length + 2 := by
  refine ⟨hread.faults_eq, ?_⟩
  have hpulled : (start tokens endLine).program.2.pulled =
      2 + (sequence endLine .program tokens).taken := rfl
  rw [hpulled, taken, hread.rest_eq, hread.overrun_eq trivial]
  simp only [List.length_nil]
  omega

/-- Statement sequences compose: behind a clean and complete program, other tokens are read
as they are read alone. -/
theorem program_append (first second : List Token) (endLine : Nat)
    (hclean : (start first endLine).program.2.faults = [])
    (hpulled : (start first endLine).program.2.pulled = first.length + 2)
    (hborder : first = [] ∨
      (∃ mark, first.getLast? = some mark ∧ mark.kind = .semicolon) ∨
      second = [] ∨
      ∃ next, second.head? = some next ∧ next.kind.precedence = .lowest ∧
        next.kind ≠ .semicolon ∧ next.kind ≠ .elseWord) :
    (start (first ++ second) endLine).program.1.statements =
        (start first endLine).program.1.statements ++
          (start second endLine).program.1.statements ∧
      (start (first ++ second) endLine).program.2.faults =
        (start second endLine).program.2.faults := by
  apply sequence_append (reads_of_clean_of_pulled hclean hpulled)
  refine hborder.imp_right fun hborder => hborder.imp_right fun hborder => ?_
  rcases hborder with rfl | ⟨next, hhead, hinert⟩
  · exact front_nil
  · intro token htoken
    rw [hhead] at htoken
    cases htoken
    exact hinert

/-- The tokens of a conditional `if (x) { y; }`, which could go on with `else`. -/
def conditionalTokens : List Token :=
  [⟨.ifWord, "if", 1⟩, ⟨.lparen, "(", 1⟩, ⟨.ident, "x", 1⟩, ⟨.rparen, ")", 1⟩,
    ⟨.lbrace, "\x7b", 1⟩, ⟨.ident, "y", 1⟩, ⟨.semicolon, ";", 1⟩, ⟨.rbrace, "\x7d", 1⟩]

/-- The tokens of `) let 1`, with two faults. -/
def strayTokens : List Token :=
  [⟨.rparen, ")", 2⟩, ⟨.letWord, "let", 2⟩, ⟨.int, "1", 2⟩]

theorem conditional_append_stray :
    ((start conditionalTokens 2).program.2.faults = [] ∧
      (start conditionalTokens 2).program.2.pulled = conditionalTokens.length + 2) ∧
    (start (conditionalTokens ++ strayTokens) 2).program.1.statements =
        (start conditionalTokens 2).program.1.statements ++
          (start strayTokens 2).program.1.statements ∧
      (start (conditionalTokens ++ strayTokens) 2).program.2.faults =
        (start strayTokens 2).program.2.faults := by
  have hclean : (start conditionalTokens 2).program.2.faults = [] := by decide +kernel
  have hpulled : (start conditionalTokens 2).program.2.pulled = conditionalTokens.length + 2 := by
    decide +kernel
  refine ⟨⟨hclean, hpulled⟩, program_append conditionalTokens strayTokens 2 hclean hpulled ?_⟩
  exact .inr (.inr (.inr ⟨⟨.rparen, ")", 2⟩, rfl, by decide⟩))

end Parser

end Scriptlet
