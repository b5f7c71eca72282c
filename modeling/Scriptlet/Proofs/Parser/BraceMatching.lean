import Scriptlet.Proofs.Parser.Provenance
import Scriptlet.Proofs.Parser.ReadAhead

/-!
# Blocks end at their own brace

A block without a fault ends where a count of the braces says: at the first brace that
closes more than was opened before it.  The values of bindings and results are skipped
with all the braces in them, so the count leaves them out.  A step that finds nothing
wrong passes over its tokens without an end of the search, inside any number of blocks.
That is an equation, and equations of steps that follow each other compose.
-/

namespace Scriptlet

/-- The keywords of the statements whose values are skipped. -/
def Kind.hides (kind : Kind) : Bool :=
  kind = .letWord || kind = .returnWord

/-- The tokens from the one on that closes a block, for a search that starts inside of it
and of `depth` blocks more.  An end marker closes a block like a brace.  Behind a token of
a kind that hides, tokens are not counted up to the next semicolon or end marker. -/
def closing? (hides : Kind → Bool) :
    (hidden : Bool) → (depth : Nat) → List Token → Option (List Token)
  | _, _, [] => none
  | true, depth, token :: rest =>
    closing? hides (token.kind ≠ .semicolon && token.kind ≠ .eof) depth rest
  | false, depth, token :: rest =>
    if hides token.kind then
      closing? hides true depth rest
    else if token.kind = .lbrace then
      closing? hides false (depth + 1) rest
    else if token.kind = .rbrace ∨ token.kind = .eof then
      match depth with
      | 0 => some (token :: rest)
      | depth + 1 => closing? hides false depth rest
    else
      closing? hides false depth rest

/-- The search for the brace of a block, with the skipped values left out. -/
def ownBrace? (depth : Nat) (tokens : List Token) : Option (List Token) :=
  closing? Kind.hides false depth tokens

/-- The search for the brace of a block among all tokens. -/
def anyBrace? (depth : Nat) (tokens : List Token) : Option (List Token) :=
  closing? (fun _ => false) false depth tokens

/-- No brace is hidden: none stands between a keyword that hides and the next semicolon. -/
def BracesInView : List Token → Prop
  | [] => True
  | word :: rest =>
    (word.kind.hides = true →
      ∀ token ∈ rest.takeWhile (·.kind ≠ .semicolon),
        token.kind ≠ .lbrace ∧ token.kind ≠ .rbrace) ∧
    BracesInView rest

instance decidableBracesInView : (tokens : List Token) → Decidable (BracesInView tokens)
  | [] => .isTrue trivial
  | _ :: rest =>
    have := decidableBracesInView rest
    inferInstanceAs (Decidable (_ ∧ _))

/-- A token of this kind does not change the count. -/
def Kind.Plain (kind : Kind) : Prop :=
  kind ∉ [.lbrace, .rbrace, .eof, .letWord, .returnWord]

instance (kind : Kind) : Decidable kind.Plain :=
  inferInstanceAs (Decidable (kind ∉ [.lbrace, .rbrace, .eof, .letWord, .returnWord]))

theorem Kind.plain_of_opening {kind : Kind} {opening : Opening}
    (hopening : kind.opening? = some opening) : kind.Plain := by
  cases kind <;> simp_all [opening?, Plain]

theorem Kind.plain_of_precedence {kind : Kind} {floor : Precedence}
    (hfloor : floor < kind.precedence) : kind.Plain := by
  have hlowest : ¬ floor < Precedence.lowest := Nat.not_lt_zero _
  cases kind <;> simp_all [precedence, Plain]

section Search

variable {token : Token} {rest : List Token} (depth : Nat)

@[simp] theorem ownBrace?_nil : ownBrace? depth [] = none := by
  simp [ownBrace?, closing?]

theorem ownBrace?_plain (hplain : token.kind.Plain) :
    ownBrace? depth (token :: rest) = ownBrace? depth rest := by
  unfold Kind.Plain at hplain
  simp_all [ownBrace?, closing?, Kind.hides]

theorem ownBrace?_open (hkind : token.kind = .lbrace) :
    ownBrace? depth (token :: rest) = ownBrace? (depth + 1) rest := by
  simp [ownBrace?, closing?, Kind.hides, hkind]

theorem ownBrace?_close (hkind : Scope.block.endsAt token.kind = true) :
    ownBrace? 0 (token :: rest) = some (token :: rest) ∧
      ownBrace? (depth + 1) (token :: rest) = ownBrace? depth rest := by
  have hkinds : token.kind = .eof ∨ token.kind = .rbrace := by
    simpa [Scope.endsAt] using hkind
  rcases hkinds with hend | hbrace
  · simp [ownBrace?, closing?, Kind.hides, hend]
  · simp [ownBrace?, closing?, Kind.hides, hbrace]

theorem ownBrace?_hiding (hkind : token.kind = .letWord ∨ token.kind = .returnWord) :
    ownBrace? depth (token :: rest) = closing? Kind.hides true depth rest := by
  rcases hkind with hlet | hreturn
  · simp [ownBrace?, closing?, Kind.hides, hlet]
  · simp [ownBrace?, closing?, Kind.hides, hreturn]

theorem closing?_skipStatement (input : List Token) :
    closing? Kind.hides true depth input = ownBrace? depth (Step.skipStatement input).rest := by
  induction input with
  | nil =>
      rw [closing?]
      exact (ownBrace?_nil depth).symm
  | cons token rest ih =>
      by_cases hends : Step.EndsSkip token
      · rw [Step.skipStatement_of_endsSkip hends, closing?]
        rcases hends with hsemicolon | hend
        · simp [hsemicolon, ownBrace?, Step.behind, Step.pure]
        · simp [hend, ownBrace?, Step.behind, Step.pure]
      · rw [Step.skipStatement_of_not_endsSkip hends, closing?]
        obtain ⟨hsemicolon, hend⟩ := not_or.mp hends
        simpa [hsemicolon, hend, Step.behind] using ih

end Search

theorem anyBrace?_cons {token : Token} {rest : List Token} (depth : Nat)
    (hbrace : token.kind ≠ .lbrace ∧ token.kind ≠ .rbrace) (hend : token.kind ≠ .eof) :
    anyBrace? depth (token :: rest) = anyBrace? depth rest := by
  simp [anyBrace?, closing?, hbrace, hend]

theorem closing?_eq_of_inView {tokens : List Token} {hidden : Bool} (depth : Nat)
    (hfree : EndFree tokens) (hview : BracesInView tokens)
    (hhidden : hidden = true → ∀ token ∈ tokens.takeWhile (·.kind ≠ .semicolon),
      token.kind ≠ .lbrace ∧ token.kind ≠ .rbrace) :
    closing? Kind.hides hidden depth tokens = anyBrace? depth tokens := by
  induction tokens generalizing hidden depth with
  | nil => simp [anyBrace?, closing?]
  | cons token rest ih =>
      have hend : token.kind ≠ .eof := hfree token List.mem_cons_self
      cases hidden with
      | true =>
          have hbrace : token.kind ≠ .lbrace ∧ token.kind ≠ .rbrace := by
            by_cases hsemicolon : token.kind = .semicolon
            · simp [hsemicolon]
            · exact hhidden rfl token (by simp [hsemicolon])
          have hstep : closing? Kind.hides true depth (token :: rest) =
              closing? Kind.hides (token.kind ≠ .semicolon) depth rest := by
            simp [closing?, hend]
          rw [hstep, anyBrace?_cons depth hbrace hend]
          apply ih depth hfree.tail hview.2
          intro hsemicolon other hmem
          apply hhidden rfl other
          rw [List.takeWhile_cons, if_pos hsemicolon]
          exact List.mem_cons_of_mem token hmem
      | false =>
          by_cases hhides : token.kind.hides = true
          · have hbrace : token.kind ≠ .lbrace ∧ token.kind ≠ .rbrace := by
              constructor <;> intro hkind <;> simp [hkind, Kind.hides] at hhides
            have hstep : closing? Kind.hides false depth (token :: rest) =
                closing? Kind.hides true depth rest := by
              simp [closing?, hhides]
            rw [hstep, anyBrace?_cons depth hbrace hend]
            exact ih depth hfree.tail hview.2 fun _ => hview.1 hhides
          · have hrest : ∀ depth, closing? Kind.hides false depth rest = anyBrace? depth rest := by
              intro depth
              exact ih depth hfree.tail hview.2 (by simp)
            simp only [anyBrace?] at hrest ⊢
            simp only [closing?, hhides, hrest, if_false, Bool.false_eq_true]

namespace Step

variable {α β : Type} {input start : List Token}

/-- Unless something is wrong, the search from `start` and the search from what the step
leaves come to the same brace. -/
def Passes (start : List Token) (step : Step α input) : Prop :=
  step.faults = [] → ∀ depth, ownBrace? depth start = ownBrace? depth step.rest

theorem passes_pure (value : α) : (pure value : Step α input).Passes input := by
  intro _ depth
  rfl

theorem passes_fail (value : α) (fault : Fault) :
    (fail value fault : Step α input).Passes start := by
  intro hclean
  contradiction

theorem Passes.behind {token : Token} {step : Step α input} (hstep : step.Passes start) :
    (step.behind token).Passes start :=
  hstep

theorem Passes.map {f : α → β} {step : Step α input} (hstep : step.Passes start) :
    (step.map f).Passes start :=
  hstep

theorem Passes.cons {token : Token} {step : Step α input} (hstep : step.Passes input)
    (hplain : token.kind.Plain) : step.Passes (token :: input) := by
  intro hclean depth
  rw [ownBrace?_plain depth hplain]
  exact hstep hclean depth

theorem Passes.bind {first : Step α input}
    {next : α → (rest : List Token) → rest.length ≤ input.length → Step β rest}
    (hfirst : first.Passes start)
    (hnext : ∀ value rest hle, (next value rest hle).Passes rest) :
    (first.bind next).Passes start := by
  intro hclean depth
  obtain ⟨hcleanFirst, hcleanNext⟩ := List.append_eq_nil_iff.mp hclean
  exact (hfirst hcleanFirst depth).trans (hnext _ _ _ hcleanNext depth)

theorem Passes.andThen {first : Step (Option α) input} {otherwise : β}
    {next : α → (rest : List Token) → rest.length ≤ input.length → Step β rest}
    (hfirst : first.Passes start)
    (hnext : ∀ value rest hle, (next value rest hle).Passes rest) :
    (first.andThen otherwise next).Passes start := by
  apply hfirst.bind
  intro found rest hle
  cases found with
  | none => exact passes_pure otherwise
  | some value => exact hnext value rest hle

theorem passes_expect_andThen {endLine : Nat} {kind : Kind} {otherwise : β}
    {next : Token → (rest : List Token) → rest.length ≤ input.length → Step β rest}
    (hnext : ∀ token rest hle, input = token :: rest → token.kind = kind →
      (next token rest hle).Passes start) :
    ((expect endLine kind input).andThen otherwise next).Passes start := by
  cases input with
  | nil =>
      rw [expect_andThen_nil]
      exact passes_fail _ _
  | cons token rest =>
      by_cases hkind : token.kind = kind
      · rw [expect_andThen_of_kind hkind]
        exact (hnext token rest (Nat.le_succ _) rfl hkind).behind
      · rw [expect_andThen_of_ne hkind]
        exact passes_fail _ _

theorem passes_expect {endLine : Nat} {kind : Kind} (hplain : kind.Plain) (input : List Token) :
    (expect endLine kind input).Passes input := by
  cases input with
  | nil => exact passes_fail _ _
  | cons token rest =>
      by_cases hkind : token.kind = kind
      · rw [expect, if_pos hkind]
        exact ((passes_pure _).cons (hkind ▸ hplain)).behind
      · rw [expect, if_neg hkind]
        exact passes_fail _ _

theorem passes_accept {kind : Kind} (hplain : kind.Plain) (input : List Token) :
    (accept kind input).Passes input := by
  cases input with
  | nil => exact passes_pure _
  | cons token rest =>
      by_cases hkind : token.kind = kind
      · rw [accept, if_pos hkind]
        exact ((passes_pure _).cons (hkind ▸ hplain)).behind
      · rw [accept, if_neg hkind]
        exact passes_pure _

theorem rest_advance (input : List Token) : (advance input).rest = input.tail := by
  cases input with
  | nil => rfl
  | cons token rest => rfl

end Step

namespace Parser

open Step

variable {endLine : Nat}

/-! ## The functions of the parser -/

theorem passes_expression_nil (floor : Precedence) : (expression endLine floor []).Passes [] := by
  rw [expression]
  intro hclean
  contradiction

theorem passes_expression_cons {floor : Precedence} {token : Token} {input : List Token}
    (hfrom : (expressionFrom endLine floor token input).Passes (token :: input)) :
    (expression endLine floor (token :: input)).Passes (token :: input) := by
  rw [expression]
  exact hfrom.behind

theorem passes_expressionFrom_none {floor : Precedence} {token : Token} {input : List Token}
    (hopening : token.kind.opening? = none) :
    (expressionFrom endLine floor token input).Passes (token :: input) := by
  rw [expressionFrom, hopening]
  exact passes_fail _ _

theorem passes_expressionFrom_some {floor : Precedence} {token : Token} {input : List Token}
    {opening : Opening} (hopening : token.kind.opening? = some opening)
    (hoperand : (operand endLine opening token input).Passes input)
    (hchain : ∀ left (rest : List Token), rest.length ≤ input.length →
      (chain endLine floor left rest).Passes rest) :
    (expressionFrom endLine floor token input).Passes (token :: input) := by
  have hplain := Kind.plain_of_opening hopening
  rw [expressionFrom, hopening]
  exact (hoperand.bind hchain).cons hplain

theorem passes_chain_operator {floor : Precedence} {left : Expr} {token : Token}
    {input : List Token} (hfloor : floor < token.kind.precedence)
    (hright : (expression endLine token.kind.precedence input).Passes input)
    (hchain : ∀ right (rest : List Token), rest.length ≤ input.length →
      (chain endLine floor (.binary token left token.literal right) rest).Passes rest) :
    (chain endLine floor left (token :: input)).Passes (token :: input) := by
  have hplain := Kind.plain_of_precedence hfloor
  rw [chain, if_pos hfloor]
  exact ((hright.bind hchain).cons hplain).behind

theorem passes_chain_stop {floor : Precedence} {left : Expr} {input : List Token}
    (hstops : Stops floor input) : (chain endLine floor left input).Passes input := by
  rw [chain_of_stops hstops]
  exact passes_pure _

theorem passes_operand_name (token : Token) (input : List Token) :
    (operand endLine .name token input).Passes input := by
  rw [operand]
  exact passes_pure _

theorem passes_operand_integer (token : Token) (input : List Token) :
    (operand endLine .integer token input).Passes input := by
  rw [operand, integer]
  split
  · exact passes_pure _
  · exact passes_fail _ _

theorem passes_operand_boolean (token : Token) (input : List Token) :
    (operand endLine .boolean token input).Passes input := by
  rw [operand]
  exact passes_pure _

theorem passes_operand_unary {token : Token} {input : List Token}
    (hinner : (expression endLine .unary input).Passes input) :
    (operand endLine .unary token input).Passes input := by
  rw [operand_unary]
  exact hinner.map

theorem passes_operand_group {token : Token} {input : List Token}
    (hinner : (enclosed endLine input).Passes input) :
    (operand endLine .group token input).Passes input := by
  rw [operand_group]
  exact hinner.map

theorem passes_conditionalTail {token : Token} {condition : Expr} {consequence : Block}
    {word : Option Token} {input : List Token} (hbraced : (braced endLine input).Passes input) :
    (conditionalTail endLine token condition consequence word input).Passes input := by
  cases word with
  | none => exact passes_pure _
  | some word =>
      rw [conditionalTail]
      apply hbraced.andThen
      intro alternative rest hle
      exact passes_pure _

theorem passes_operand_conditional {token : Token} {input : List Token}
    (henclosed : ∀ rest : List Token, rest.length ≤ input.length →
      (enclosed endLine rest).Passes rest)
    (hbraced : ∀ rest : List Token, rest.length ≤ input.length →
      (braced endLine rest).Passes rest) :
    (operand endLine .conditional token input).Passes input := by
  rw [operand_conditional]
  apply (passes_expect (by decide) input).andThen
  intro _ afterOpening hleOpening
  apply (henclosed afterOpening hleOpening).andThen
  intro condition afterCondition hleCondition
  apply (hbraced afterCondition (by omega)).andThen
  intro consequence afterConsequence hleConsequence
  apply (passes_accept (by decide) afterConsequence).bind
  intro word afterWord hleWord
  apply passes_conditionalTail
  apply hbraced
  omega

theorem passes_enclosed {input : List Token}
    (hinner : (expression endLine .lowest input).Passes input) :
    (enclosed endLine input).Passes input := by
  rw [enclosed]
  apply hinner.bind
  intro inner rest hle
  exact (passes_expect (by decide) rest).map

theorem passes_braced {input : List Token}
    (hblock : ∀ mark (rest : List Token), rest.length ≤ input.length → mark.kind = .lbrace →
      (block endLine mark rest).Passes (mark :: rest)) :
    (braced endLine input).Passes input := by
  rw [braced]
  apply passes_expect_andThen
  intro mark rest hle hinput hkind
  rw [hinput]
  exact (hblock mark rest hle hkind).map

section Block

variable (endLine : Nat) (mark : Token) (input : List Token)

theorem faults_block :
    (block endLine mark input).faults = (sequence endLine .block input).faults := by
  rw [block]
  simp only [Step.bind, Step.map, faults_advance, List.append_nil]

theorem rest_block :
    (block endLine mark input).rest = (sequence endLine .block input).rest.tail := by
  rw [block]
  exact rest_advance _

theorem overrun_block : (block endLine mark input).overrun =
    (sequence endLine .block input).overrun +
      (advance (sequence endLine .block input).rest).overrun := by
  rw [block]
  rfl

theorem tokens_block : (block endLine mark input).value.tokens =
    mark :: Stmt.tokensOfAll (sequence endLine .block input).value := by
  rw [block]
  simp only [Step.bind, Step.map, Block.tokens]

end Block

/-- The brace that opens the block and the token that closes it cancel out. -/
theorem passes_block {mark : Token} {input : List Token} (hkind : mark.kind = .lbrace)
    (hsequence : (sequence endLine .block input).Passes input) :
    (block endLine mark input).Passes (mark :: input) := by
  intro hclean depth
  have hends := ends_rest_sequence endLine .block input
  rw [faults_block] at hclean
  rw [ownBrace?_open depth hkind, hsequence hclean (depth + 1), rest_block]
  cases hrest : (sequence endLine .block input).rest with
  | nil => simp
  | cons closing rest =>
      rw [hrest] at hends
      exact (ownBrace?_close depth (front_cons_iff.mp hends)).2

theorem passes_statement_binding {token : Token} {input : List Token}
    (hword : token.kind = .letWord) : (statement endLine token input).Passes (token :: input) := by
  rw [statement, hword]
  apply passes_expect_andThen
  intro name afterName hleName hinput hname
  apply passes_expect_andThen
  intro sign afterSign hleSign hafterName hsign hclean depth
  have hhidden : closing? Kind.hides true depth (name :: sign :: afterSign) =
      closing? Kind.hides true depth afterSign := by
    simp [closing?, hname, hsign]
  rw [ownBrace?_hiding depth (.inl hword), hinput, hafterName, hhidden]
  exact closing?_skipStatement depth afterSign

theorem passes_statement_result {token : Token} {input : List Token}
    (hword : token.kind = .returnWord) :
    (statement endLine token input).Passes (token :: input) := by
  rw [statement, hword]
  intro hclean depth
  rw [ownBrace?_hiding depth (.inr hword)]
  exact closing?_skipStatement depth input

theorem passes_statement_expression {token : Token} {input : List Token}
    (hlet : token.kind ≠ .letWord) (hreturn : token.kind ≠ .returnWord)
    (hfrom : (expressionFrom endLine .lowest token input).Passes (token :: input)) :
    (statement endLine token input).Passes (token :: input) := by
  rw [statement_eq_expression hlet hreturn]
  apply hfrom.bind
  intro value rest hle
  exact (passes_accept (by decide) rest).map

theorem passes_sequence_stop {scope : Scope} {input : List Token} (hends : Ends scope input) :
    (sequence endLine scope input).Passes input := by
  rw [sequence_of_ends hends]
  exact passes_pure _

theorem passes_sequence_cons {scope : Scope} {token : Token} {input : List Token}
    (hends : ¬ scope.endsAt token.kind = true)
    (hstatement : (statement endLine token input).Passes (token :: input))
    (hsequence : ∀ rest : List Token, rest.length ≤ input.length →
      (sequence endLine scope rest).Passes rest) :
    (sequence endLine scope (token :: input)).Passes (token :: input) := by
  rw [sequence, if_neg hends]
  apply Passes.behind
  apply hstatement.bind
  intro first rest hle
  exact (hsequence rest hle).map

def passesMotive (endLine : Nat) : Motive where
  expression floor input := (expression endLine floor input).Passes input
  expressionFrom floor token input :=
    (expressionFrom endLine floor token input).Passes (token :: input)
  operand opening token input := (operand endLine opening token input).Passes input
  enclosed input := (enclosed endLine input).Passes input
  braced input := (braced endLine input).Passes input
  chain floor left input := (chain endLine floor left input).Passes input
  block mark input := mark.kind = .lbrace → (block endLine mark input).Passes (mark :: input)
  statement token input := (statement endLine token input).Passes (token :: input)
  sequence scope input := (sequence endLine scope input).Passes input

theorem passes_cases (endLine : Nat) : (passesMotive endLine).Cases where
  expression_nil := passes_expression_nil _
  expression_cons := passes_expression_cons
  expressionFrom_none := passes_expressionFrom_none
  expressionFrom_some := passes_expressionFrom_some
  operand_name := passes_operand_name _ _
  operand_integer := passes_operand_integer _ _
  operand_boolean := passes_operand_boolean _ _
  operand_unary := passes_operand_unary
  operand_group := passes_operand_group
  operand_conditional := passes_operand_conditional
  enclosed_of_expression := passes_enclosed
  braced_of_block := passes_braced
  chain_stop := passes_chain_stop
  chain_operator := passes_chain_operator
  block_of_sequence hsequence hkind := passes_block hkind hsequence
  statement_binding := passes_statement_binding
  statement_result := passes_statement_result
  statement_expression := passes_statement_expression
  sequence_stop := passes_sequence_stop
  sequence_cons := passes_sequence_cons

theorem passes_sequence (endLine : Nat) (scope : Scope) (input : List Token) :
    (sequence endLine scope input).Passes input :=
  (passes_cases endLine).holds.sequence scope input

/-! ## Blocks -/

section Blocks

variable {mark : Token} {input : List Token}

theorem ownBrace?_of_clean (hclean : (block endLine mark input).faults = []) :
    (sequence endLine .block input).rest = [] ∧ ownBrace? 0 input = none ∨
    ∃ closing rest, (sequence endLine .block input).rest = closing :: rest ∧
      (closing.kind = .rbrace ∨ closing.kind = .eof) ∧
      ownBrace? 0 input = some (closing :: rest) := by
  have hends := ends_rest_sequence endLine .block input
  rw [faults_block] at hclean
  rw [passes_sequence endLine .block input hclean 0]
  cases hrest : (sequence endLine .block input).rest with
  | nil => exact .inl ⟨rfl, ownBrace?_nil 0⟩
  | cons closing rest =>
      rw [hrest] at hends
      have hkind := front_cons_iff.mp hends
      refine .inr ⟨closing, rest, rfl, ?_, (ownBrace?_close 0 hkind).1⟩
      simpa [Scope.endsAt, or_comm] using hkind

theorem exists_brace_of_clean (hclean : (block endLine mark input).faults = [])
    {found : List Token} (hfound : ownBrace? 0 input = some found) :
    ∃ inner closing, input = inner ++ closing :: (block endLine mark input).rest ∧
      found = closing :: (block endLine mark input).rest ∧
      (closing.kind = .rbrace ∨ closing.kind = .eof ∧ ¬ EndFree input) ∧
      (block endLine mark input).overrun = 0 ∧
      (block endLine mark input).value.tokens.Sublist (mark :: inner) := by
  obtain ⟨inner, hinput, hdrawn⟩ := sequenceDraws endLine .block input
  have hoverrun := (sequence endLine .block input).overrun_at_end
  rcases ownBrace?_of_clean hclean with ⟨_, hnone⟩ | ⟨closing, rest, hrest, hkind, hsome⟩
  · rw [hnone] at hfound
    contradiction
  · rw [hrest] at hinput hoverrun
    rw [hsome] at hfound
    cases hfound
    have hmarker : closing.kind = .eof → ¬ EndFree input := by
      intro hend hfree
      exact hfree closing (by simp [hinput]) hend
    rw [rest_block, overrun_block, tokens_block, hrest,
      hoverrun.resolve_right (List.cons_ne_nil _ _)]
    exact ⟨inner, closing, hinput, rfl, hkind.imp_right fun hend => ⟨hend, hmarker hend⟩, rfl,
      hdrawn.ordered.cons_cons mark⟩

theorem overrun_of_no_brace (hclean : (block endLine mark input).faults = [])
    (hnone : ownBrace? 0 input = none) :
    (block endLine mark input).rest = [] ∧ (block endLine mark input).overrun ≠ 0 := by
  rcases ownBrace?_of_clean hclean with ⟨hrest, _⟩ | ⟨closing, rest, _, _, hsome⟩
  · rw [rest_block, overrun_block, hrest]
    exact ⟨rfl, Nat.succ_ne_zero _⟩
  · rw [hsome] at hnone
    contradiction

end Blocks

/-- A block without a fault is left at its own brace, which is its end, and nothing behind
that brace belongs to it.  If there is no such brace, the block is left at the end marker.
Skipped values are not looked at for the brace, which matters only if they hold braces. -/
theorem block_ends_at_own_brace (endLine : Nat) (mark : Token) (input : List Token)
    (hclean : (block endLine mark input).faults = []) :
    let read := block endLine mark input
    (∀ found, ownBrace? 0 input = some found →
      ∃ inner closing, input = inner ++ closing :: read.rest ∧ found = closing :: read.rest ∧
        (closing.kind = .rbrace ∨ closing.kind = .eof ∧ ¬ EndFree input) ∧ read.overrun = 0 ∧
        read.value.tokens.Sublist (mark :: inner)) ∧
    (ownBrace? 0 input = none → read.rest = [] ∧ read.overrun ≠ 0) ∧
    (EndFree input → BracesInView input → ownBrace? 0 input = anyBrace? 0 input) := by
  refine ⟨?_, ?_, ?_⟩
  · intro found hfound
    exact exists_brace_of_clean hclean hfound
  · intro hnone
    exact overrun_of_no_brace hclean hnone
  · intro hfree hview
    exact closing?_eq_of_inView 0 hfree hview (by simp)

/-- The tokens behind the opening brace of `{ let x = }{; if (a) { b; } else {} } c }`. -/
def nestedTokens : List Token :=
  [⟨.letWord, "let", 1⟩, ⟨.ident, "x", 1⟩, ⟨.assign, "=", 1⟩, ⟨.rbrace, "\x7d", 1⟩,
    ⟨.lbrace, "\x7b", 1⟩, ⟨.semicolon, ";", 1⟩, ⟨.ifWord, "if", 1⟩, ⟨.lparen, "(", 1⟩,
    ⟨.ident, "a", 1⟩, ⟨.rparen, ")", 1⟩, ⟨.lbrace, "\x7b", 1⟩, ⟨.ident, "b", 1⟩,
    ⟨.semicolon, ";", 1⟩, ⟨.rbrace, "\x7d", 1⟩, ⟨.elseWord, "else", 1⟩, ⟨.lbrace, "\x7b", 1⟩,
    ⟨.rbrace, "\x7d", 1⟩, ⟨.rbrace, "\x7d", 1⟩, ⟨.ident, "c", 1⟩, ⟨.rbrace, "\x7d", 1⟩]

/-- The tokens behind the opening brace of `{ let x = 5; if (a) { return b; }`. -/
def unclosedBlockTokens : List Token :=
  [⟨.letWord, "let", 1⟩, ⟨.ident, "x", 1⟩, ⟨.assign, "=", 1⟩, ⟨.int, "5", 1⟩,
    ⟨.semicolon, ";", 1⟩, ⟨.ifWord, "if", 2⟩, ⟨.lparen, "(", 2⟩, ⟨.ident, "a", 2⟩,
    ⟨.rparen, ")", 2⟩, ⟨.lbrace, "\x7b", 2⟩, ⟨.returnWord, "return", 3⟩, ⟨.ident, "b", 3⟩,
    ⟨.semicolon, ";", 3⟩, ⟨.rbrace, "\x7d", 4⟩]

theorem nested_block_ends_at_own_brace :
    ((block 1 ⟨.lbrace, "\x7b", 1⟩ nestedTokens).faults = [] ∧
      ownBrace? 0 nestedTokens = some (nestedTokens.drop 17) ∧
      (block 1 ⟨.lbrace, "\x7b", 1⟩ nestedTokens).rest = nestedTokens.drop 18) ∧
    (block 4 ⟨.lbrace, "\x7b", 1⟩ unclosedBlockTokens).faults = [] ∧
      anyBrace? 0 unclosedBlockTokens = none ∧
      (block 4 ⟨.lbrace, "\x7b", 1⟩ unclosedBlockTokens).overrun ≠ 0 := by
  have hclean : (block 1 ⟨.lbrace, "\x7b", 1⟩ nestedTokens).faults = [] := by decide +kernel
  have hfound : ownBrace? 0 nestedTokens = some (nestedTokens.drop 17) := by decide
  have hcleanUnclosed : (block 4 ⟨.lbrace, "\x7b", 1⟩ unclosedBlockTokens).faults = [] := by
    decide +kernel
  have hnone : anyBrace? 0 unclosedBlockTokens = none := by decide
  obtain ⟨_, _, _, hrest, _⟩ := (block_ends_at_own_brace 1 _ nestedTokens hclean).1 _ hfound
  obtain ⟨_, hend, hview⟩ := block_ends_at_own_brace 4 _ unclosedBlockTokens hcleanUnclosed
  have hown : ownBrace? 0 unclosedBlockTokens = none := by
    rw [hview (by decide) (by decide)]
    exact hnone
  exact ⟨⟨hclean, hfound, (congrArg List.tail hrest).symm⟩, hcleanUnclosed, hnone, (hend hown).2⟩

/-- The tokens behind the opening brace of `{ return 1 }; b`. -/
def openResultTokens : List Token :=
  [⟨.returnWord, "return", 1⟩, ⟨.int, "1", 1⟩, ⟨.rbrace, "\x7d", 1⟩, ⟨.semicolon, ";", 1⟩,
    ⟨.ident, "b", 1⟩]

/-- Without its semicolon, the value of a result takes the brace of the block along. -/
theorem open_result_takes_brace :
    let read := block 1 ⟨.lbrace, "\x7b", 1⟩ openResultTokens
    read.faults = [] ∧ anyBrace? 0 openResultTokens = some (openResultTokens.drop 2) ∧
      read.rest = [] ∧ read.overrun = 1 ∧ ⟨.ident, "b", 1⟩ ∈ read.value.tokens := by
  decide +kernel

end Parser

end Scriptlet
