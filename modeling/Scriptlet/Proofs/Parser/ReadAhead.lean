import Scriptlet.Proofs.Parser.ViablePrefix

/-!
# How far the parser reads past the end

Three things read over the end marker: an expression where no token is left, a skipped
value, and the end of a block.  The first two happen at most once in a run, for nothing
else is begun behind them; the last one at most once for each opening brace.  Two steps
together keep to this bound because the second step runs over the marker only where the
first has not.
-/

namespace Scriptlet

def braces (tokens : List Token) : Nat :=
  tokens.countP fun token => token.kind = .lbrace

theorem braces_le_of_suffix {rest input : List Token} (hsuffix : rest <:+ input) :
    braces rest ≤ braces input :=
  hsuffix.sublist.countP_le

theorem braces_le_cons (token : Token) (input : List Token) :
    braces input ≤ braces (token :: input) :=
  braces_le_of_suffix (List.suffix_cons token input)

theorem braces_cons_of_lbrace {token : Token} (hkind : token.kind = .lbrace)
    (input : List Token) : braces (token :: input) = braces input + 1 := by
  simp [braces, hkind]

namespace Step

variable {α β : Type} {input : List Token}

/-- The end marker is read over no more than `allowance` times and once for every
opening brace. -/
def Within (allowance : Nat) (step : Step α input) : Prop :=
  step.overrun ≤ allowance + braces input

variable {allowance : Nat}

theorem within_of_overrun_eq_zero {step : Step α input} (hzero : step.overrun = 0) :
    step.Within allowance := by
  simp [Within, hzero]

theorem Within.behind {token : Token} {step : Step α input} (hstep : step.Within allowance) :
    (step.behind token).Within allowance := by
  have hbraces := braces_le_cons token input
  unfold Within at *
  simp only [Step.behind]
  omega

theorem Within.map {f : α → β} {step : Step α input} (hstep : step.Within allowance) :
    (step.map f).Within allowance :=
  hstep

section Bind

variable {first : Step α input}
  {next : α → (rest : List Token) → rest.length ≤ input.length → Step β rest}

theorem overrun_bind : (first.bind next).overrun = first.overrun +
    (next first.value first.rest first.rest_suffix.length_le).overrun :=
  rfl

/-- The marker is run over by one of the two steps at most, if the first never does so
or the second leaves it in place where no token is left. -/
theorem Within.bind (hfirst : first.Within allowance)
    (hnext : ∀ value rest hle, (next value rest hle).Within allowance)
    (hend : first.overrun = 0 ∨
      ∀ value rest hle, rest = [] → (next value rest hle).overrun = 0) :
    (first.bind next).Within allowance := by
  have hbraces := braces_le_of_suffix first.rest_suffix
  have hsecond := hnext first.value first.rest first.rest_suffix.length_le
  unfold Within at *
  rw [overrun_bind]
  rcases hend with hzero | hend
  · omega
  · rcases first.overrun_at_end with hzero | hrest
    · omega
    · rw [hend _ _ _ hrest]
      omega

theorem overrun_bind_eq_zero (hinput : input = []) (hfirst : first.overrun = 0)
    (hnext : ∀ value rest hle, rest = [] → (next value rest hle).overrun = 0) :
    (first.bind next).overrun = 0 := by
  have hrest : first.rest = [] := by
    apply List.suffix_nil.mp
    rw [← hinput]
    exact first.rest_suffix
  rw [overrun_bind, hfirst, hnext _ _ _ hrest]

end Bind

section AndThen

variable {first : Step (Option α) input} {otherwise : β}
  {next : α → (rest : List Token) → rest.length ≤ input.length → Step β rest}

theorem Within.andThen (hfirst : first.Within allowance)
    (hnext : ∀ value rest hle, (next value rest hle).Within allowance)
    (hend : first.overrun = 0 ∨
      ∀ value rest hle, rest = [] → (next value rest hle).overrun = 0) :
    (first.andThen otherwise next).Within allowance := by
  refine hfirst.bind ?_ (hend.imp_right ?_)
  · intro found rest hle
    cases found with
    | none => exact within_of_overrun_eq_zero rfl
    | some value => exact hnext value rest hle
  · intro hend found rest hle hrest
    cases found with
    | none => rfl
    | some value => exact hend value rest hle hrest

theorem overrun_andThen_eq_zero (hinput : input = []) (hfirst : first.overrun = 0)
    (hnext : ∀ value rest hle, rest = [] → (next value rest hle).overrun = 0) :
    (first.andThen otherwise next).overrun = 0 := by
  apply overrun_bind_eq_zero hinput hfirst
  intro found rest hle hrest
  cases found with
  | none => rfl
  | some value => exact hnext value rest hle hrest

end AndThen

theorem overrun_expect {endLine : Nat} {kind : Kind} (input : List Token) :
    (expect endLine kind input).overrun = 0 := by
  cases input with
  | nil => rfl
  | cons token rest =>
      by_cases hkind : token.kind = kind
      · simp [expect, hkind, behind, pure]
      · simp [expect, hkind, fail]

theorem overrun_accept {kind : Kind} (input : List Token) :
    (accept kind input).overrun = 0 := by
  cases input with
  | nil => rfl
  | cons token rest =>
      by_cases hkind : token.kind = kind
      · simp [accept, hkind, behind, pure]
      · simp [accept, hkind, pure]

theorem overrun_advance_le (input : List Token) : (advance input).overrun ≤ 1 := by
  cases input <;> simp [advance]

theorem within_skipStatement (input : List Token) : (skipStatement input).Within 1 := by
  induction input with
  | nil => exact Nat.le_add_right 1 _
  | cons token rest ih =>
      by_cases hends : EndsSkip token
      · rw [skipStatement_of_endsSkip hends]
        exact within_of_overrun_eq_zero rfl
      · rw [skipStatement_of_not_endsSkip hends]
        exact ih.behind

end Step

namespace Parser

open Step

variable {endLine : Nat}

theorem overrun_chain_nil (floor : Precedence) (left : Expr) {input : List Token}
    (hinput : input = []) : (chain endLine floor left input).overrun = 0 := by
  subst hinput
  simp [chain, Step.pure]

theorem overrun_sequence_nil (scope : Scope) {input : List Token} (hinput : input = []) :
    (sequence endLine scope input).overrun = 0 := by
  subst hinput
  simp [sequence, Step.pure]

theorem overrun_braced_nil {input : List Token} (hinput : input = []) :
    (braced endLine input).overrun = 0 := by
  subst hinput
  rw [braced]
  rfl

theorem overrun_conditionalTail_nil (token : Token) (condition : Expr) (consequence : Block)
    (word : Option Token) {input : List Token} (hinput : input = []) :
    (conditionalTail endLine token condition consequence word input).overrun = 0 := by
  cases word with
  | none => rfl
  | some word =>
      rw [conditionalTail]
      apply overrun_andThen_eq_zero hinput (overrun_braced_nil hinput)
      intro alternative rest hle hrest
      rfl

/-! ## The functions of the parser -/

theorem within_expression_nil (floor : Precedence) : (expression endLine floor []).Within 1 := by
  simp [Within, expression]

theorem within_expression_cons {floor : Precedence} {token : Token} {input : List Token}
    (hfrom : (expressionFrom endLine floor token input).Within 1) :
    (expression endLine floor (token :: input)).Within 1 := by
  rw [expression]
  exact hfrom.behind

theorem within_expressionFrom_none {floor : Precedence} {token : Token} {input : List Token}
    (hopening : token.kind.opening? = none) :
    (expressionFrom endLine floor token input).Within 1 := by
  rw [expressionFrom, hopening]
  exact within_of_overrun_eq_zero rfl

theorem within_expressionFrom_some {floor : Precedence} {token : Token} {input : List Token}
    {opening : Opening} (hopening : token.kind.opening? = some opening)
    (hoperand : (operand endLine opening token input).Within 1)
    (hchain : ∀ left (rest : List Token), rest.length ≤ input.length →
      (chain endLine floor left rest).Within 1) :
    (expressionFrom endLine floor token input).Within 1 := by
  rw [expressionFrom, hopening]
  apply hoperand.bind hchain
  right
  intro left rest hle hrest
  exact overrun_chain_nil floor left hrest

theorem within_chain_operator {floor : Precedence} {left : Expr} {token : Token}
    {input : List Token} (hfloor : floor < token.kind.precedence)
    (hright : (expression endLine token.kind.precedence input).Within 1)
    (hchain : ∀ right (rest : List Token), rest.length ≤ input.length →
      (chain endLine floor (.binary token left token.literal right) rest).Within 1) :
    (chain endLine floor left (token :: input)).Within 1 := by
  rw [chain, if_pos hfloor]
  apply Within.behind
  apply hright.bind hchain
  right
  intro right rest hle hrest
  exact overrun_chain_nil floor _ hrest

theorem within_chain_stop {floor : Precedence} {left : Expr} {input : List Token}
    (hstops : Stops floor input) : (chain endLine floor left input).Within 1 := by
  rw [chain_of_stops hstops]
  exact within_of_overrun_eq_zero rfl

theorem within_operand_name (token : Token) (input : List Token) :
    (operand endLine .name token input).Within 1 := by
  rw [operand]
  exact within_of_overrun_eq_zero rfl

theorem within_operand_integer (token : Token) (input : List Token) :
    (operand endLine .integer token input).Within 1 := by
  rw [operand, integer]
  split
  · exact within_of_overrun_eq_zero rfl
  · exact within_of_overrun_eq_zero rfl

theorem within_operand_boolean (token : Token) (input : List Token) :
    (operand endLine .boolean token input).Within 1 := by
  rw [operand]
  exact within_of_overrun_eq_zero rfl

theorem within_operand_unary {token : Token} {input : List Token}
    (hinner : (expression endLine .unary input).Within 1) :
    (operand endLine .unary token input).Within 1 := by
  rw [operand_unary]
  exact hinner.map

theorem within_operand_group {token : Token} {input : List Token}
    (hinner : (enclosed endLine input).Within 1) :
    (operand endLine .group token input).Within 1 := by
  rw [operand_group]
  exact hinner.map

theorem within_conditionalTail {token : Token} {condition : Expr} {consequence : Block}
    {word : Option Token} {input : List Token} (hbraced : (braced endLine input).Within 1) :
    (conditionalTail endLine token condition consequence word input).Within 1 := by
  cases word with
  | none => exact within_of_overrun_eq_zero rfl
  | some word =>
      rw [conditionalTail]
      apply hbraced.andThen
      · intro alternative rest hle
        exact within_of_overrun_eq_zero rfl
      · right
        intro alternative rest hle hrest
        rfl

theorem within_operand_conditional {token : Token} {input : List Token}
    (henclosed : ∀ rest : List Token, rest.length ≤ input.length →
      (enclosed endLine rest).Within 1)
    (hbraced : ∀ rest : List Token, rest.length ≤ input.length →
      (braced endLine rest).Within 1) :
    (operand endLine .conditional token input).Within 1 := by
  -- Behind the end of the input neither the word nor the second block is begun.
  have hwordEnd : ∀ condition consequence (rest : List Token), rest = [] →
      ((accept .elseWord rest).bind fun word rest _ =>
        conditionalTail endLine token condition consequence word rest).overrun = 0 := by
    intro condition consequence rest hrest
    apply overrun_bind_eq_zero hrest (overrun_accept rest)
    intro word afterWord hleWord hafterWord
    exact overrun_conditionalTail_nil token condition consequence word hafterWord
  rw [operand_conditional]
  apply Within.andThen (within_of_overrun_eq_zero (overrun_expect input)) _
    (.inl (overrun_expect input))
  intro _ afterOpening hleOpening
  apply (henclosed afterOpening hleOpening).andThen
  · intro condition afterCondition hleCondition
    have hle := Nat.le_trans hleCondition hleOpening
    apply (hbraced afterCondition hle).andThen
    · intro consequence afterConsequence hleConsequence
      apply Within.bind (within_of_overrun_eq_zero (overrun_accept afterConsequence)) _
        (.inl (overrun_accept afterConsequence))
      intro word afterWord hleWord
      apply within_conditionalTail
      apply hbraced
      omega
    · right
      intro consequence afterConsequence hleConsequence
      exact hwordEnd condition consequence afterConsequence
  · right
    intro condition afterCondition hleCondition hafterCondition
    apply overrun_andThen_eq_zero hafterCondition (overrun_braced_nil hafterCondition)
    intro consequence afterConsequence hleConsequence
    exact hwordEnd condition consequence afterConsequence

theorem within_enclosed {input : List Token}
    (hinner : (expression endLine .lowest input).Within 1) :
    (enclosed endLine input).Within 1 := by
  rw [enclosed]
  apply hinner.bind
  · intro inner rest hle
    exact within_of_overrun_eq_zero (overrun_expect rest)
  · right
    intro inner rest hle hrest
    exact overrun_expect rest

/-- The brace pays for the end marker that closes the block. -/
theorem within_braced {input : List Token}
    (hblock : ∀ mark (rest : List Token), rest.length ≤ input.length →
      (block endLine mark rest).Within 2) :
    (braced endLine input).Within 1 := by
  cases input with
  | nil => exact within_of_overrun_eq_zero (overrun_braced_nil rfl)
  | cons token rest =>
      by_cases hkind : token.kind = .lbrace
      · have hinner := hblock token rest (Nat.le_succ _)
        have hbraces := braces_cons_of_lbrace hkind rest
        have hoverrun : (braced endLine (token :: rest)).overrun =
            (block endLine token rest).overrun := by
          have hexpect : expect endLine .lbrace (token :: rest) =
              .behind token (.pure (some token)) := if_pos hkind
          rw [braced, hexpect, Step.andThen, overrun_bind]
          exact Nat.zero_add _
        unfold Within at *
        omega
      · apply within_of_overrun_eq_zero
        simp [braced, expect, hkind, Step.andThen, Step.bind, Step.fail, Step.pure]

theorem within_block {mark : Token} {input : List Token}
    (hsequence : (sequence endLine .block input).Within 1) :
    (block endLine mark input).Within 2 := by
  have hadvance := overrun_advance_le (sequence endLine .block input).rest
  unfold Within at *
  rw [block, overrun_bind]
  simp only [Step.map]
  omega

theorem within_statement_binding {token : Token} {input : List Token}
    (hword : token.kind = .letWord) : (statement endLine token input).Within 1 := by
  rw [statement, hword]
  apply Within.andThen (within_of_overrun_eq_zero (overrun_expect input)) _
    (.inl (overrun_expect input))
  intro name afterName hleName
  apply Within.andThen (within_of_overrun_eq_zero (overrun_expect afterName)) _
    (.inl (overrun_expect afterName))
  intro sign afterSign hleSign
  exact (within_skipStatement afterSign).map

theorem within_statement_result {token : Token} {input : List Token}
    (hword : token.kind = .returnWord) : (statement endLine token input).Within 1 := by
  rw [statement, hword]
  exact (within_skipStatement input).map

theorem within_statement_expression {token : Token} {input : List Token}
    (hlet : token.kind ≠ .letWord) (hreturn : token.kind ≠ .returnWord)
    (hfrom : (expressionFrom endLine .lowest token input).Within 1) :
    (statement endLine token input).Within 1 := by
  rw [statement_eq_expression hlet hreturn]
  apply hfrom.bind
  · intro value rest hle
    exact within_of_overrun_eq_zero (overrun_accept rest)
  · right
    intro value rest hle hrest
    exact overrun_accept rest

theorem within_sequence_stop {scope : Scope} {input : List Token} (hends : Ends scope input) :
    (sequence endLine scope input).Within 1 := by
  rw [sequence_of_ends hends]
  exact within_of_overrun_eq_zero rfl

theorem within_sequence_cons {scope : Scope} {token : Token} {input : List Token}
    (hends : ¬ scope.endsAt token.kind = true)
    (hstatement : (statement endLine token input).Within 1)
    (hsequence : ∀ rest : List Token, rest.length ≤ input.length →
      (sequence endLine scope rest).Within 1) :
    (sequence endLine scope (token :: input)).Within 1 := by
  rw [sequence, if_neg hends]
  apply Within.behind
  apply hstatement.bind
  · intro first rest hle
    exact (hsequence rest hle).map
  · right
    intro first rest hle hrest
    exact overrun_sequence_nil scope hrest

def withinMotive (endLine : Nat) : Motive where
  expression floor input := (expression endLine floor input).Within 1
  expressionFrom floor token input := (expressionFrom endLine floor token input).Within 1
  operand opening token input := (operand endLine opening token input).Within 1
  enclosed input := (enclosed endLine input).Within 1
  braced input := (braced endLine input).Within 1
  chain floor left input := (chain endLine floor left input).Within 1
  block mark input := (block endLine mark input).Within 2
  statement token input := (statement endLine token input).Within 1
  sequence scope input := (sequence endLine scope input).Within 1

theorem within_cases (endLine : Nat) : (withinMotive endLine).Cases where
  expression_nil := within_expression_nil _
  expression_cons := within_expression_cons
  expressionFrom_none := within_expressionFrom_none
  expressionFrom_some := within_expressionFrom_some
  operand_name := within_operand_name _ _
  operand_integer := within_operand_integer _ _
  operand_boolean := within_operand_boolean _ _
  operand_unary := within_operand_unary
  operand_group := within_operand_group
  operand_conditional := within_operand_conditional
  enclosed_of_expression := within_enclosed
  braced_of_block := within_braced
  chain_stop := within_chain_stop
  chain_operator := within_chain_operator
  block_of_sequence := within_block
  statement_binding := within_statement_binding
  statement_result := within_statement_result
  statement_expression := within_statement_expression
  sequence_stop := within_sequence_stop
  sequence_cons := within_sequence_cons

theorem within_sequence (endLine : Nat) (scope : Scope) (input : List Token) :
    (sequence endLine scope input).Within 1 :=
  (within_cases endLine).holds.sequence scope input

theorem ends_rest_sequence (endLine : Nat) (scope : Scope) (input : List Token) :
    Ends scope (sequence endLine scope input).rest := by
  induction hlength : input.length using Nat.strongRecOn generalizing input with
  | ind length ih =>
      cases input with
      | nil => simp [sequence, Step.pure, Ends]
      | cons token rest =>
          by_cases hends : scope.endsAt token.kind = true
          · simp [sequence, hends, Step.pure, Ends]
          · rw [sequence, if_neg hends]
            have hshorter := (statement endLine token rest).rest_suffix.length_le
            change Ends scope (sequence endLine scope (statement endLine token rest).rest).rest
            apply ih _ _ _ rfl
            simp only [List.length_cons] at hlength
            omega

theorem program_of_ends {parser : Parser} (hends : Ends .program parser.remaining) :
    parser.program = (⟨[]⟩, parser) := by
  have hread : (sequence parser.endLine .program parser.remaining).Reads True []
      parser.remaining := reads_sequence_of_ends hends
  have htaken : (sequence parser.endLine .program parser.remaining).taken = 0 := by
    simp [taken, hread.rest_eq, hread.overrun_eq trivial]
  simp [program, hread.value_eq, hread.rest_eq, hread.faults_eq, htaken]

/-- The parser after so many calls. -/
def after (parser : Parser) : Nat → Parser
  | 0 => parser
  | calls + 1 => parser.program.2.after calls

theorem after_of_ends {parser : Parser} (hends : Ends .program parser.remaining) (calls : Nat) :
    parser.after calls = parser := by
  induction calls with
  | zero => rfl
  | succ calls ih => rw [after, program_of_ends hends, ih]

/-- The parser stops at an end marker, having taken no more tokens than there are, one for
every opening brace and three, and every further call does nothing. -/
theorem program_stops_within (tokens : List Token) (endLine : Nat) :
    let parser := (start tokens endLine).program.2
    (parser.remaining.headD (Source.endToken endLine)).kind = .eof ∧
      parser.pulled ≤ tokens.length + tokens.countP (fun token => token.kind = .lbrace) + 3 ∧
      ∀ calls, ((start tokens endLine).after (calls + 1)).program = (⟨[]⟩, parser) := by
  have hends : Ends .program (start tokens endLine).program.2.remaining :=
    ends_rest_sequence endLine .program tokens
  refine ⟨?_, ?_, ?_⟩
  · cases hrest : (start tokens endLine).program.2.remaining with
    | nil => rfl
    | cons token rest =>
        rw [hrest] at hends
        simpa [Ends, Scope.endsAt] using hends
  · have hwithin := within_sequence endLine .program tokens
    simp only [Within, braces] at hwithin
    simp only [program, start, taken]
    omega
  · intro calls
    rw [after, after_of_ends hends]
    exact program_of_ends hends

end Parser

end Scriptlet
