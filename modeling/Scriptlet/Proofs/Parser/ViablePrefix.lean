import Scriptlet.Proofs.Parser.Lookahead

/-!
# The first fault is at the earliest possible token

The tokens before the first fault can be completed to a clean program, and no clean program
begins with them and the token at the fault.  A function that is entered behind its first
token may already have failed there: the token begins no operand, or it is an integer whose
text names none.  The functions in front of it take such tokens as failures of their own.
-/

namespace Scriptlet.Parser

open Step Reader

variable {endLine : Nat}

/-- The token begins an operand that does not fail at once. -/
def OpensOperand (token : Token) : Prop :=
  ∃ opening : Opening, token.kind ∈ opening.kinds ∧
    (opening = .integer → Numeral.value? token.literal ≠ none)

def OpensStatement (token : Token) : Prop :=
  token.kind = .letWord ∨ token.kind = .returnWord ∨ OpensOperand token

theorem enclosed_eq : enclosed endLine =
    Reader.bind (expression endLine .lowest) fun inner =>
      Reader.map (fun closing => closing.map fun _ => inner) (expect endLine .rparen) := by
  funext input
  rw [enclosed]
  rfl

theorem braced_eq : braced endLine =
    Reader.andThen (expect endLine .lbrace) none fun mark =>
      Reader.map some (block endLine mark) := by
  funext input
  rw [braced]
  rfl

theorem conditional_eq {token : Token} : operand endLine .conditional token =
    Reader.andThen (expect endLine .lparen) .missing fun _ =>
      Reader.andThen (enclosed endLine) .missing fun condition =>
        Reader.andThen (braced endLine) .missing fun consequence =>
          Reader.bind (accept .elseWord) fun other =>
            conditionalTail endLine token condition consequence other := by
  funext input
  rw [operand_conditional]
  rfl

theorem conditionalTail_some_eq {token other : Token} {condition : Expr} {consequence : Block} :
    conditionalTail endLine token condition consequence (some other) =
      Reader.andThen (braced endLine) .missing fun alternative _ =>
        .pure (.conditional token condition consequence (some alternative)) :=
  rfl

theorem binding_eq {token : Token} : binding endLine token =
    Reader.andThen (expect endLine .ident) none fun name =>
      Reader.andThen (expect endLine .assign) none fun _ =>
        Reader.map (fun _ => some (.binding token ⟨name, name.literal⟩ .missing))
          skipStatement :=
  rfl

/-! ## Completion from nothing -/

theorem stops_of_settled {floor : Precedence} {rest : List Token} (hrest : Settled rest) :
    Stops floor rest := by
  refine hrest.imp ?_
  intro token htoken
  rw [htoken.1]
  exact Nat.not_lt_zero _

theorem completable_chain (floor : Precedence) (left : Expr) :
    Completable (chain endLine floor left) anywhere [] :=
  ⟨[], left, List.forall_mem_nil _, fun _ => front_nil,
    fun _ hrest _ => reads_chain_of_stops (stops_of_settled hrest)⟩

theorem completable_expression (floor : Precedence) :
    Completable (expression endLine floor) anywhere [] := by
  refine ⟨[⟨.ident, "", 0⟩], .name ⟨⟨.ident, "", 0⟩, ""⟩, by decide, ?_, ?_⟩
  · intro _
    exact front_cons_iff.mpr (by decide)
  · intro rest hrest _
    refine reads_expression_of_operand .name (List.mem_singleton.mpr rfl) ?_
      (reads_chain_of_stops (stops_of_settled hrest))
    rw [operand]
    exact reads_pure_iff.mpr ⟨rfl, rfl⟩

theorem completable_enclosed : Completable (enclosed endLine) anywhere [] := by
  rw [enclosed_eq]
  refine (completable_expression .lowest).bind_start ?_
  intro inner
  exact (completable_expect (by decide) (by decide)).map _

theorem completable_sequence (scope : Scope) :
    Completable (sequence endLine scope) (Ends scope) [] :=
  ⟨[], [], List.forall_mem_nil _, fun _ => front_nil,
    fun _ _ hends => reads_sequence_of_ends hends⟩

theorem completable_skipStatement {consumed : List Token}
    (hconsumed : ∀ token ∈ consumed, ¬ EndsSkip token) :
    Completable skipStatement anywhere consumed := by
  refine ⟨[⟨.ident, "", 0⟩, ⟨.semicolon, "", 0⟩], (), by decide, ?_, ?_⟩
  · intro _
    exact front_cons_iff.mpr (by decide)
  · intro rest _ _
    refine reads_skipStatement_iff.mpr (.inl ⟨consumed ++ [⟨.ident, "", 0⟩],
      ⟨.semicolon, "", 0⟩, ?_, .inl rfl, by simp⟩)
    intro token hmem
    rcases List.mem_append.mp hmem with hmem | hmem
    · exact hconsumed token hmem
    · rw [List.mem_singleton.mp hmem]
      simp [EndsSkip]

theorem completable_block_of_sequence {mark : Token} {consumed : List Token}
    (hsequence : Completable (sequence endLine .block) (Ends .block) consumed) :
    Completable (block endLine mark) anywhere consumed := by
  obtain ⟨completion, statements, hfree, hsettled, hreads⟩ := hsequence
  refine ⟨completion ++ [⟨.rbrace, "", 0⟩], .mk mark statements, hfree.append (by decide), ?_, ?_⟩
  · intro hconsumed
    exact (hsettled hconsumed).append (front_cons_iff.mpr (by decide))
  · intro rest _ _
    have hread := hreads (⟨.rbrace, "", 0⟩ :: rest) (front_cons_iff.mpr (by decide))
      (front_cons_iff.mpr rfl)
    have hassoc : consumed ++ (completion ++ [⟨.rbrace, "", 0⟩]) ++ rest =
        consumed ++ completion ++ ⟨.rbrace, "", 0⟩ :: rest := by simp
    rw [hassoc]
    exact reads_block hread reads_advance_cons

theorem completable_braced : Completable (braced endLine) anywhere [] := by
  rw [braced_eq]
  refine (completable_expect (by decide) (by decide)).andThen_start ?_
  intro mark
  exact (completable_block_of_sequence (completable_sequence .block)).map some

theorem completable_conditionalTail (token : Token) (condition : Expr) (consequence : Block)
    (other : Option Token) :
    Completable (conditionalTail endLine token condition consequence other) anywhere [] := by
  cases other with
  | none => exact completable_pure _
  | some other =>
      rw [conditionalTail_some_eq]
      exact completable_braced.andThen_start fun alternative => completable_pure _

section Expressions

variable {floor : Precedence} {token : Token} {input : List Token}

theorem predictive_expression_nil (floor : Precedence) :
    Predictive endLine (expression endLine floor) anywhere [] := by
  have hfaults : (expression endLine floor []).faults = [.noOperand .eof endLine] := by
    rw [expression]
  constructor
  · exact fun _ _ _ => trivial
  · intro value rest hread
    rw [hread.faults_eq] at hfaults
    contradiction
  · intro value rest hread
    rw [hread.faults_eq] at hfaults
    contradiction
  · intro fault hfails
    rw [Fails, hfaults] at hfails
    obtain rfl := Option.some.inj hfails
    refine ⟨[], [], rfl, ⟨rfl, rfl⟩, completable_expression floor, ?_⟩
    intro token tail hcons
    contradiction

theorem fails_of_not_opensOperand (hopens : ¬ OpensOperand token) :
    ∃ fault : Fault, fault.FoundAt token ∧
      ∀ floor input, (expressionFrom endLine floor token input).Fails fault := by
  cases hopening : token.kind.opening? with
  | none =>
      refine ⟨.noOperand token.kind token.line, ⟨rfl, rfl⟩, ?_⟩
      intro floor input
      rw [expressionFrom, hopening]
      exact fails_fail_iff.mpr rfl
  | some opening =>
      have hkind := Kind.opening?_eq_some_iff.mp hopening
      have hinteger : opening = .integer ∧ Numeral.value? token.literal = none := by
        by_contra hnot
        refine hopens ⟨opening, hkind, ?_⟩
        intro hopening hnone
        exact hnot ⟨hopening, hnone⟩
      refine ⟨.badInteger token.literal token.line, ⟨rfl, rfl⟩, ?_⟩
      intro floor input
      rw [expressionFrom, hopening, hinteger.1]
      refine fails_bind_iff.mpr (.inl ?_)
      rw [operand, integer, hinteger.2]
      exact fails_fail_iff.mpr rfl

theorem predictive_expression_cons
    (hfrom : OpensOperand token →
      Predictive endLine (expressionFrom endLine floor token) anywhere input) :
    Predictive endLine (expression endLine floor) anywhere (token :: input) := by
  have hbehind : ∀ input, expression endLine floor (token :: input) =
      (expressionFrom endLine floor token input).behind token := by
    intro input
    rw [expression]
  by_cases hopens : OpensOperand token
  · exact (hfrom hopens).behind hbehind
  · obtain ⟨fault, hfound, hfails⟩ := fails_of_not_opensOperand hopens
    refine predictive_of_fails hfound ?_ (completable_expression floor)
    intro input
    rw [hbehind]
    exact hfails floor input

theorem predictive_expressionFrom_none (hopening : token.kind.opening? = none)
    (hopens : OpensOperand token) :
    Predictive endLine (expressionFrom endLine floor token) anywhere input := by
  obtain ⟨opening, hkind, _⟩ := hopens
  rw [Kind.opening?_eq_some_iff.mpr hkind] at hopening
  contradiction

theorem predictive_expressionFrom_some {opening : Opening}
    (hopening : token.kind.opening? = some opening)
    (hoperand : (opening = .integer → Numeral.value? token.literal ≠ none) →
      Predictive endLine (operand endLine opening token) anywhere input)
    (hchain : ∀ left (rest : List Token), rest.length ≤ input.length →
      Predictive endLine (chain endLine floor left) anywhere rest)
    (hopens : OpensOperand token) :
    Predictive endLine (expressionFrom endLine floor token) anywhere input := by
  obtain ⟨other, hkind, hvalue⟩ := hopens
  have hother : opening = other := by
    rw [Kind.opening?_eq_some_iff.mpr hkind] at hopening
    exact (Option.some.inj hopening).symm
  have hfrom : expressionFrom endLine floor token =
      Reader.bind (operand endLine opening token) (chain endLine floor) := by
    funext input
    rw [expressionFrom, hopening]
    rfl
  rw [hfrom]
  rw [← hother] at hvalue
  exact (hoperand hvalue).bind hchain (completable_chain floor)

theorem predictive_chain_stop {left : Expr} (hstops : Stops floor input) :
    Predictive endLine (chain endLine floor left) anywhere input := by
  have hreads : (chain endLine floor left input).Reads True left input :=
    reads_chain_of_stops hstops
  constructor
  · exact fun _ _ _ => trivial
  · intro value rest hread
    obtain rfl := hreads.value_eq.symm.trans hread.value_eq
    obtain rfl := hreads.rest_eq.symm.trans hread.rest_eq
    refine ⟨[], rfl, ?_⟩
    intro other hreplaces _
    refine reads_chain_of_stops (hreplaces.imp ?_)
    intro token htoken
    rcases htoken with hinert | hsame
    · rw [hinert.1]
      exact Nat.not_lt_zero _
    · obtain ⟨old, hold, hkind⟩ := Option.map_eq_some_iff.mp hsame
      rw [← hkind]
      exact hstops old hold
  · intro value rest hread
    obtain rfl := hreads.rest_eq.symm.trans hread.rest_eq
    exact ⟨[], rfl, completable_chain floor left⟩
  · intro fault hfails
    rw [Fails, hreads.faults_eq] at hfails
    contradiction

theorem predictive_chain_operator {left : Expr} (hfloor : floor < token.kind.precedence)
    (hright : Predictive endLine (expression endLine token.kind.precedence) anywhere input)
    (hchain : ∀ right (rest : List Token), rest.length ≤ input.length →
      Predictive endLine (chain endLine floor (.binary token left token.literal right))
        anywhere rest) :
    Predictive endLine (chain endLine floor left) anywhere (token :: input) := by
  refine (hright.bind hchain fun right => completable_chain floor _).behind ?_
  intro input
  rw [chain, if_pos hfloor]
  rfl

end Expressions

section Operands

variable {token : Token} {input : List Token}

theorem predictive_operand_integer (hvalue : Numeral.value? token.literal ≠ none) :
    Predictive endLine (operand endLine .integer token) anywhere input := by
  obtain ⟨value, hvalue⟩ := Option.ne_none_iff_exists'.mp hvalue
  have hoperand : operand endLine .integer token = fun _ => .pure (.integer token value) := by
    funext input
    rw [operand, integer, hvalue]
  rw [hoperand]
  exact predictive_pure _

theorem predictive_operand_name :
    Predictive endLine (operand endLine .name token) anywhere input := by
  have hoperand : operand endLine .name token = fun _ => .pure (.name ⟨token, token.literal⟩) := by
    funext input
    rw [operand]
  rw [hoperand]
  exact predictive_pure _

theorem predictive_operand_boolean :
    Predictive endLine (operand endLine .boolean token) anywhere input := by
  have hoperand : operand endLine .boolean token =
      fun _ => .pure (.boolean token (token.kind = .trueWord)) := by
    funext input
    rw [operand]
  rw [hoperand]
  exact predictive_pure _

theorem predictive_operand_unary
    (hinner : Predictive endLine (expression endLine .unary) anywhere input) :
    Predictive endLine (operand endLine .unary token) anywhere input := by
  have hoperand : operand endLine .unary token =
      Reader.map (.unary token token.literal) (expression endLine .unary) := by
    funext input
    rw [operand]
    rfl
  rw [hoperand]
  exact hinner.map _

theorem predictive_operand_group
    (hinner : Predictive endLine (enclosed endLine) anywhere input) :
    Predictive endLine (operand endLine .group token) anywhere input := by
  have hoperand : operand endLine .group token =
      Reader.map (fun inner => inner.getD .missing) (enclosed endLine) := by
    funext input
    rw [operand]
    rfl
  rw [hoperand]
  exact hinner.map _

theorem predictive_operand_conditional
    (henclosed : ∀ rest : List Token, rest.length ≤ input.length →
      Predictive endLine (enclosed endLine) anywhere rest)
    (hbraced : ∀ rest : List Token, rest.length ≤ input.length →
      Predictive endLine (braced endLine) anywhere rest) :
    Predictive endLine (operand endLine .conditional token) anywhere input := by
  have hinert : ¬ Kind.elseWord.Inert := by decide
  have hother : ∀ condition consequence, Completable
      (Reader.bind (accept .elseWord)
        (conditionalTail endLine token condition consequence)) anywhere [] := by
    intro condition consequence
    exact (completable_accept hinert).bind_start
      (completable_conditionalTail token condition consequence)
  rw [conditional_eq]
  refine (predictive_expect (by decide) (by decide)).andThen ?_ ?_
  · intro _ afterOpening hleOpening
    refine (henclosed afterOpening hleOpening).andThen ?_ ?_
    · intro condition afterCondition hleCondition
      have hle := Nat.le_trans hleCondition hleOpening
      refine (hbraced afterCondition hle).andThen ?_ (hother condition)
      intro consequence afterConsequence hleConsequence
      refine (predictive_accept hinert).bind ?_
        (completable_conditionalTail token condition consequence)
      intro other afterOther hleOther
      cases other with
      | none => exact predictive_pure _
      | some other =>
          rw [conditionalTail_some_eq]
          refine (hbraced afterOther ?_).andThen (fun _ _ _ => predictive_pure _)
            (fun _ => completable_pure _)
          exact Nat.le_trans hleOther (Nat.le_trans hleConsequence hle)
    · intro condition
      exact completable_braced.andThen_start (hother condition)
  · intro _
    refine completable_enclosed.andThen_start ?_
    intro condition
    exact completable_braced.andThen_start (hother condition)

theorem predictive_enclosed
    (hinner : Predictive endLine (expression endLine .lowest) anywhere input) :
    Predictive endLine (enclosed endLine) anywhere input := by
  have hinert : Kind.rparen.Inert := by decide
  rw [enclosed_eq]
  refine hinner.bind ?_ ?_
  · intro inner rest _
    exact (predictive_expect hinert (by decide)).map _
  · intro inner
    exact (completable_expect hinert (by decide)).map _

end Operands

section Statements

variable {token : Token} {input : List Token}

theorem predictive_braced
    (hblock : ∀ mark (rest : List Token), rest.length ≤ input.length →
      Predictive endLine (block endLine mark) anywhere rest) :
    Predictive endLine (braced endLine) anywhere input := by
  rw [braced_eq]
  refine (predictive_expect (by decide) (by decide)).andThen ?_ ?_
  · intro mark rest hle
    exact (hblock mark rest hle).map some
  · intro mark
    exact (completable_block_of_sequence (completable_sequence .block)).map some

theorem predictive_block {mark : Token}
    (hsequence : Predictive endLine (sequence endLine .block) (Ends .block) input) :
    Predictive endLine (block endLine mark) anywhere input := by
  have hinvert : ∀ {whole value rest}, (block endLine mark input).Reads whole value rest →
      ∃ statements middle, value = .mk mark statements ∧
        (sequence endLine .block input).Reads whole statements middle ∧
        (advance middle).Reads whole () rest := by
    intro whole value rest hread
    rw [block, reads_bind_iff] at hread
    obtain ⟨statements, middle, _, hstatements, hread⟩ := hread
    obtain ⟨_, hadvance, rfl⟩ := reads_map_iff.mp hread
    exact ⟨statements, middle, rfl, hstatements, hadvance⟩
  -- A closing token stays in front of every other rest, so the statements end where they did.
  have hframe : ∀ {whole statements closing rest},
      (sequence endLine .block input).Reads whole statements (closing :: rest) →
      ∃ consumed, input = (consumed ++ [closing]) ++ rest ∧
        ∀ other, (block endLine mark (consumed ++ [closing] ++ other)).Reads True
          (.mk mark statements) other := by
    intro whole statements closing rest hstatements
    have hends := hsequence.stops _ _ hstatements.loosen
    obtain ⟨consumed, hinput, hother⟩ :=
      hsequence.framed _ _ (hstatements.whole_of_ne_nil (List.cons_ne_nil _ _))
    refine ⟨consumed, by rw [hinput]; simp, ?_⟩
    intro other
    have hread := hother (closing :: other) (replaces_cons closing rest other)
      (front_cons_iff.mpr (front_cons_iff.mp hends))
    have hassoc : consumed ++ [closing] ++ other = consumed ++ closing :: other := by simp
    rw [hassoc]
    exact reads_block hread reads_advance_cons
  constructor
  · exact fun _ _ _ => trivial
  · intro value rest hread
    obtain ⟨statements, middle, rfl, hstatements, hadvance⟩ := hinvert hread
    rcases reads_advance_iff.mp hadvance with ⟨closing, rfl⟩ | ⟨_, _, hcut⟩
    · obtain ⟨consumed, hinput, hother⟩ := hframe hstatements
      exact ⟨consumed ++ [closing], hinput, fun other _ _ => hother other⟩
    · exact absurd trivial hcut
  · intro value rest hread
    obtain ⟨statements, middle, rfl, hstatements, hadvance⟩ := hinvert hread
    rcases reads_advance_iff.mp hadvance with ⟨closing, rfl⟩ | ⟨rfl, rfl, _⟩
    · obtain ⟨consumed, hinput, hother⟩ := hframe hstatements
      refine ⟨consumed ++ [closing], hinput, [], .mk mark statements, List.forall_mem_nil _,
        fun _ => front_nil, ?_⟩
      intro other _ _
      rw [List.append_nil]
      exact hother other
    · obtain ⟨consumed, hinput, hcompletable⟩ := hsequence.closable _ _ hstatements
      exact ⟨consumed, hinput, completable_block_of_sequence hcompletable⟩
  · intro fault hfails
    rw [block, fails_bind_iff] at hfails
    rcases hfails with hfails | ⟨_, _, _, _, hadvance⟩
    · obtain ⟨before, after, hinput, hfound, hcompletable, hother⟩ :=
        hsequence.pinpointed fault hfails
      refine ⟨before, after, hinput, hfound, completable_block_of_sequence hcompletable, ?_⟩
      intro token tail hafter other
      rw [block, fails_bind_iff]
      exact .inl (hother token tail hafter other)
    · exact absurd hadvance not_fails_advance

theorem predictive_skipStatement : Predictive endLine skipStatement anywhere input := by
  have hother : ∀ {skipped : List Token} {mark : Token},
      (∀ token ∈ skipped, ¬ EndsSkip token) → EndsSkip mark →
      ∀ other, (skipStatement (skipped ++ [mark] ++ other)).Reads True () other := by
    intro skipped mark hskipped hmark other
    exact reads_skipStatement_iff.mpr (.inl ⟨skipped, mark, hskipped, hmark, by simp⟩)
  constructor
  · exact fun _ _ _ => trivial
  · intro value rest hread
    rcases reads_skipStatement_iff.mp hread with
      ⟨skipped, mark, hskipped, hmark, rfl⟩ | ⟨hcut, _⟩
    · exact ⟨skipped ++ [mark], by simp, fun other _ _ => hother hskipped hmark other⟩
    · exact absurd trivial hcut
  · intro value rest hread
    rcases reads_skipStatement_iff.mp hread with
      ⟨skipped, mark, hskipped, hmark, rfl⟩ | ⟨_, rfl, hskipped⟩
    · refine ⟨skipped ++ [mark], by simp, [], (), List.forall_mem_nil _, fun _ => front_nil, ?_⟩
      intro other _ _
      rw [List.append_nil]
      exact hother hskipped hmark other
    · exact ⟨input, (List.append_nil input).symm, completable_skipStatement hskipped⟩
  · intro fault hfails
    exact absurd hfails not_fails_skipStatement

theorem predictive_statement_binding (hword : token.kind = .letWord) :
    Predictive endLine (statement endLine token) anywhere input := by
  have hassign : Kind.assign.Inert := by decide
  have hskip : ∀ name : Token, Completable (Reader.map
      (fun _ => some (Stmt.binding token ⟨name, name.literal⟩ .missing)) skipStatement)
      anywhere [] := by
    intro name
    exact (completable_skipStatement (List.forall_mem_nil _)).map _
  have hstatement : statement endLine token = binding endLine token := by
    funext input
    rw [statement, hword]
  rw [hstatement, binding_eq]
  refine (predictive_expect (by decide) (by decide)).andThen ?_ ?_
  · intro name rest _
    refine (predictive_expect hassign (by decide)).andThen ?_ (fun _ => hskip name)
    intro _ rest _
    exact predictive_skipStatement.map _
  · intro name
    exact (completable_expect hassign (by decide)).andThen_start fun _ => hskip name

theorem predictive_statement_result (hword : token.kind = .returnWord) :
    Predictive endLine (statement endLine token) anywhere input := by
  have hstatement : statement endLine token =
      Reader.map (fun _ => some (.result token .missing)) skipStatement := by
    funext input
    rw [statement, hword]
    rfl
  rw [hstatement]
  exact predictive_skipStatement.map _

theorem predictive_statement_expression (hlet : token.kind ≠ .letWord)
    (hreturn : token.kind ≠ .returnWord)
    (hfrom : OpensOperand token →
      Predictive endLine (expressionFrom endLine .lowest token) anywhere input)
    (hopens : OpensStatement token) :
    Predictive endLine (statement endLine token) anywhere input := by
  have hinert : ¬ Kind.semicolon.Inert := by decide
  have hoperand : OpensOperand token :=
    (hopens.resolve_left hlet).resolve_left hreturn
  have hstatement : statement endLine token =
      Reader.bind (expressionFrom endLine .lowest token) fun value =>
        Reader.map (fun _ => some (.expression token value)) (accept .semicolon) := by
    funext input
    exact statement_eq_expression hlet hreturn
  rw [hstatement]
  refine (hfrom hoperand).bind ?_ ?_
  · intro value rest _
    exact (predictive_accept hinert).map _
  · intro value
    exact (completable_accept hinert).map _

theorem predictive_sequence_stop {scope : Scope} (hends : Ends scope input) :
    Predictive endLine (sequence endLine scope) (Ends scope) input := by
  have hreads : (sequence endLine scope input).Reads True [] input :=
    reads_sequence_of_ends hends
  constructor
  · intro values rest hread
    rwa [← hread.rest_eq, hreads.rest_eq]
  · intro values rest hread
    obtain rfl := hreads.value_eq.symm.trans hread.value_eq
    obtain rfl := hreads.rest_eq.symm.trans hread.rest_eq
    exact ⟨[], rfl, fun other _ hother => reads_sequence_of_ends hother⟩
  · intro values rest hread
    obtain rfl := hreads.rest_eq.symm.trans hread.rest_eq
    exact ⟨[], rfl, completable_sequence scope⟩
  · intro fault hfails
    rw [Fails, hreads.faults_eq] at hfails
    contradiction

theorem predictive_sequence_cons {scope : Scope} (hends : ¬ scope.endsAt token.kind = true)
    (hstatement : OpensStatement token →
      Predictive endLine (statement endLine token) anywhere input)
    (hsequence : ∀ rest : List Token, rest.length ≤ input.length →
      Predictive endLine (sequence endLine scope) (Ends scope) rest) :
    Predictive endLine (sequence endLine scope) (Ends scope) (token :: input) := by
  have hbehind : ∀ input, sequence endLine scope (token :: input) =
      (Reader.bind (statement endLine token) (fun first =>
        Reader.map (fun others => first.toList ++ others) (sequence endLine scope)) input).behind
        token := by
    intro input
    rw [sequence, if_neg hends]
    rfl
  by_cases hopens : OpensStatement token
  · refine ((hstatement hopens).bind ?_ ?_).behind hbehind
    · intro first rest hle
      exact (hsequence rest hle).map _
    · intro first
      exact (completable_sequence scope).map _
  · obtain ⟨hlet, hreturn, hoperand⟩ := not_or.mp hopens |>.imp_right not_or.mp
    obtain ⟨fault, hfound, hfails⟩ := fails_of_not_opensOperand hoperand
    refine predictive_of_fails hfound ?_ (completable_sequence scope)
    intro input
    rw [hbehind, fails_behind_iff]
    refine fails_bind_iff.mpr (.inl ?_)
    rw [statement_eq_expression hlet hreturn]
    exact fails_bind_iff.mpr (.inl (hfails .lowest input))

end Statements

def predictiveMotive (endLine : Nat) : Motive where
  expression floor := Predictive endLine (expression endLine floor) anywhere
  enclosed := Predictive endLine (enclosed endLine) anywhere
  braced := Predictive endLine (braced endLine) anywhere
  chain floor left := Predictive endLine (chain endLine floor left) anywhere
  block mark := Predictive endLine (block endLine mark) anywhere
  sequence scope := Predictive endLine (sequence endLine scope) (Ends scope)
  -- These are entered behind a token, and a token that opens nothing has failed before.
  expressionFrom floor token input :=
    OpensOperand token → Predictive endLine (expressionFrom endLine floor token) anywhere input
  operand opening token input := (opening = .integer → Numeral.value? token.literal ≠ none) →
    Predictive endLine (operand endLine opening token) anywhere input
  statement token input :=
    OpensStatement token → Predictive endLine (statement endLine token) anywhere input

theorem predictive_cases (endLine : Nat) : (predictiveMotive endLine).Cases where
  expression_nil := predictive_expression_nil _
  expression_cons := predictive_expression_cons
  expressionFrom_none := predictive_expressionFrom_none
  expressionFrom_some := predictive_expressionFrom_some
  operand_name _ := predictive_operand_name
  operand_integer hvalue := predictive_operand_integer (hvalue rfl)
  operand_boolean _ := predictive_operand_boolean
  operand_unary hinner _ := predictive_operand_unary hinner
  operand_group hinner _ := predictive_operand_group hinner
  operand_conditional henclosed hbraced _ := predictive_operand_conditional henclosed hbraced
  enclosed_of_expression := predictive_enclosed
  braced_of_block := predictive_braced
  chain_stop := predictive_chain_stop
  chain_operator := predictive_chain_operator
  block_of_sequence := predictive_block
  statement_binding hword _ := predictive_statement_binding hword
  statement_result hword _ := predictive_statement_result hword
  statement_expression := predictive_statement_expression
  sequence_stop := predictive_sequence_stop
  sequence_cons := predictive_sequence_cons

theorem predictive_expressionFrom {token : Token} (hopens : OpensOperand token)
    (floor : Precedence) (input : List Token) :
    Predictive endLine (expressionFrom endLine floor token) anywhere input :=
  (predictive_cases endLine).holds.expressionFrom floor token input hopens

theorem predictive_statement {token : Token} (hopens : OpensStatement token)
    (input : List Token) : Predictive endLine (statement endLine token) anywhere input :=
  (predictive_cases endLine).holds.statement token input hopens

theorem predictive_sequence (endLine : Nat) (scope : Scope) (input : List Token) :
    Predictive endLine (sequence endLine scope) (Ends scope) input :=
  (predictive_cases endLine).holds.sequence scope input

/-! ## Whole programs -/

theorem clean_of_completable {consumed : List Token}
    (hcompletable : Completable (sequence endLine .program) (Ends .program) consumed) :
    ∃ extension, EndFree extension ∧
      (start (consumed ++ extension) endLine).program.2.faults = [] := by
  obtain ⟨extension, statements, hfree, _, hreads⟩ := hcompletable
  have hread := hreads [] front_nil front_nil
  rw [List.append_nil] at hread
  exact ⟨extension, hfree, hread.faults_eq⟩

theorem faults_ne_nil_of_fails {tokens : List Token} {fault : Fault}
    (hfails : (sequence endLine .program tokens).Fails fault) :
    (start tokens endLine).program.2.faults ≠ [] := by
  intro hclean
  have hnone : (sequence endLine .program tokens).faults = [] := hclean
  rw [Fails, hnone] at hfails
  contradiction

/-- The first fault is about the first token that no clean program can have
behind the tokens in front of it. -/
theorem first_fault_at_earliest_token (tokens : List Token) (endLine : Nat) (fault : Fault)
    (hfault : (start tokens endLine).program.2.faults.head? = some fault) :
    ∃ index, index ≤ tokens.length ∧
      fault.FoundAt (tokens[index]?.getD (Source.endToken endLine)) ∧
      (∃ extension : List Token, (∀ token ∈ extension, token.kind ≠ .eof) ∧
        (start (tokens.take index ++ extension) endLine).program.2.faults = []) ∧
      (index < tokens.length → ∀ extension,
        (start (tokens.take (index + 1) ++ extension) endLine).program.2.faults ≠ []) := by
  have hfails : (sequence endLine .program tokens).Fails fault := hfault
  obtain ⟨before, after, rfl, hfound, hcompletable, hother⟩ :=
    (predictive_sequence endLine .program tokens).pinpointed fault hfails
  refine ⟨before.length, ?_, ?_, ?_, ?_⟩
  · rw [List.length_append]
    exact Nat.le_add_right _ _
  · have hget : (before ++ after)[before.length]? = after.head? := by
      rw [List.getElem?_append_right (Nat.le_refl _), Nat.sub_self, List.head?_eq_getElem?]
    rw [hget, ← List.headD_eq_head?_getD]
    exact hfound
  · rw [List.take_left]
    exact clean_of_completable hcompletable
  · intro hlt extension
    cases after with
    | nil =>
        rw [List.append_nil] at hlt
        exact absurd hlt (Nat.lt_irrefl _)
    | cons token tail =>
        have htake : (before ++ token :: tail).take (before.length + 1) = before ++ [token] := by
          rw [List.take_length_add_append]
          rfl
        rw [htake, List.append_assoc]
        exact faults_ne_nil_of_fails (hother token tail rfl extension)

/-- The tokens of `let x )`. -/
def unassignedTokens : List Token :=
  [⟨.letWord, "let", 1⟩, ⟨.ident, "x", 1⟩, ⟨.rparen, ")", 1⟩]

theorem unassigned_fault_at_earliest_token :
    (start unassignedTokens 1).program.2.faults.head? = some (.unexpected .assign .rparen 1) ∧
    ∃ index, index ≤ unassignedTokens.length ∧
      (Fault.unexpected .assign .rparen 1).FoundAt
        (unassignedTokens[index]?.getD (Source.endToken 1)) ∧
      (∃ extension : List Token, (∀ token ∈ extension, token.kind ≠ .eof) ∧
        (start (unassignedTokens.take index ++ extension) 1).program.2.faults = []) ∧
      (index < unassignedTokens.length → ∀ extension,
        (start (unassignedTokens.take (index + 1) ++ extension) 1).program.2.faults ≠ []) := by
  have hfails : (sequence 1 .program unassignedTokens).Fails (.unexpected .assign .rparen 1) := by
    rw [unassignedTokens, sequence, if_neg (by decide), fails_behind_iff, fails_bind_iff, statement]
    exact .inl rfl
  exact ⟨hfails, first_fault_at_earliest_token unassignedTokens 1 _ hfails⟩

end Scriptlet.Parser
