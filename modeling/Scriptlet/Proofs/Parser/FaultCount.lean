import Scriptlet.Proofs.Grammar.Completeness

/-!
# No more faults than tokens

Every fault has a token of its own to be charged to.  A missing closing parenthesis is
charged to the opening one, whatever else is missing to the keyword that asked for it, and
every other fault to the token that it names.  Only a missing operand at the end of the
input is charged to the end marker, which has a credit of one as long as there are tokens
in front of it, and none behind the last.
-/

namespace Scriptlet

/-- The faults that may still be found: one for each token and one for the end marker, but
none where no token is left. -/
def credit : List Token → Nat
  | [] => 0
  | _ :: rest => rest.length + 2

@[simp] theorem credit_nil : credit [] = 0 :=
  rfl

@[simp] theorem credit_cons (token : Token) (rest : List Token) :
    credit (token :: rest) = rest.length + 2 :=
  rfl

theorem credit_le (tokens : List Token) : credit tokens ≤ tokens.length + 1 := by
  cases tokens <;> simp

theorem credit_le_of_suffix {rest input : List Token} (hsuffix : rest <:+ input) :
    credit rest ≤ credit input := by
  have hlength := hsuffix.length_le
  cases rest with
  | nil => exact Nat.zero_le _
  | cons token rest =>
      cases input with
      | nil => simp at hlength
      | cons first input => simpa using hlength

namespace Step

variable {α β : Type} {input : List Token} {bound : Nat}

/-- The faults of the step and the credit it leaves stay within the bound. -/
def Charged (bound : Nat) (step : Step α input) : Prop :=
  step.faults.length + credit step.rest ≤ bound

theorem charged_of_clean {step : Step α input} (hclean : step.faults = [])
    (hbound : credit input ≤ bound) : step.Charged bound := by
  have hrest := credit_le_of_suffix step.rest_suffix
  unfold Charged
  rw [hclean, List.length_nil]
  omega

theorem charged_fail {value : α} {fault : Fault} (hbound : credit input + 1 ≤ bound) :
    (fail value fault : Step α input).Charged bound := by
  unfold Charged
  rw [Nat.add_comm]
  exact hbound

theorem Charged.behind {token : Token} {step : Step α input} (hstep : step.Charged bound) :
    (step.behind token).Charged bound :=
  hstep

theorem Charged.map {f : α → β} {step : Step α input} (hstep : step.Charged bound) :
    (step.map f).Charged bound :=
  hstep

theorem Charged.mono {step : Step α input} {larger : Nat} (hstep : step.Charged bound)
    (hbound : bound ≤ larger) : step.Charged larger :=
  Nat.le_trans hstep hbound

/-- The second step is charged to the credit that the first has left, and to what is
granted beyond it. -/
theorem Charged.bind {first : Step α input}
    {next : α → (rest : List Token) → rest.length ≤ input.length → Step β rest}
    (extra : Nat) (hfirst : first.Charged bound)
    (hnext : ∀ value rest hle, (next value rest hle).Charged (credit rest + extra)) :
    (first.bind next).Charged (bound + extra) := by
  have hrest := hnext first.value first.rest first.rest_suffix.length_le
  unfold Charged at *
  simp only [Step.bind, List.length_append]
  omega

theorem Charged.andThen {first : Step (Option α) input} {otherwise : β}
    {next : α → (rest : List Token) → rest.length ≤ input.length → Step β rest}
    (extra : Nat) (hfirst : first.Charged bound)
    (hnext : ∀ value rest hle, (next value rest hle).Charged (credit rest + extra)) :
    (first.andThen otherwise next).Charged (bound + extra) := by
  apply hfirst.bind extra
  intro found rest hle
  cases found with
  | none => exact charged_of_clean rfl (Nat.le_add_right _ _)
  | some value => exact hnext value rest hle

theorem charged_expect (endLine : Nat) (kind : Kind) (input : List Token) :
    (expect endLine kind input).Charged (credit input + 1) := by
  cases input with
  | nil => exact charged_fail (Nat.le_refl _)
  | cons token rest =>
      by_cases hkind : token.kind = kind
      · rw [expect, if_pos hkind]
        exact charged_of_clean rfl (Nat.le_add_right _ _)
      · rw [expect, if_neg hkind]
        exact charged_fail (Nat.le_refl _)

/-- Where the token is missing, nothing else is charged; where it stands, its own credit is
free for what follows. -/
theorem charged_expect_andThen {endLine : Nat} {kind : Kind} {otherwise : β}
    {next : Token → (rest : List Token) → rest.length ≤ input.length → Step β rest}
    (hmissing : credit input + 1 ≤ bound)
    (hnext : ∀ token rest hle, input = token :: rest → (next token rest hle).Charged bound) :
    ((expect endLine kind input).andThen otherwise next).Charged bound := by
  cases input with
  | nil =>
      rw [expect_andThen_nil]
      exact charged_fail hmissing
  | cons token rest =>
      by_cases hkind : token.kind = kind
      · rw [expect_andThen_of_kind hkind]
        exact (hnext token rest (Nat.le_succ _) rfl).behind
      · rw [expect_andThen_of_ne hkind]
        exact charged_fail hmissing

theorem charged_accept_bind {kind : Kind}
    {next : Option Token → (rest : List Token) → rest.length ≤ input.length → Step β rest}
    (hnone : (next none input (Nat.le_refl _)).Charged bound)
    (hsome : ∀ token rest hle, input = token :: rest →
      (next (some token) rest hle).Charged bound) :
    ((accept kind input).bind next).Charged bound := by
  cases input with
  | nil => exact hnone
  | cons token rest =>
      by_cases hkind : token.kind = kind
      · have haccept : accept kind (token :: rest) = .behind token (.pure (some token)) :=
          if_pos hkind
        rw [haccept]
        exact hsome token rest (Nat.le_succ _) rfl
      · have haccept : accept kind (token :: rest) = .pure none := if_neg hkind
        rw [haccept]
        exact hnone

end Step

namespace Parser

open Step

variable {endLine : Nat}

/-! ## The functions of the parser -/

theorem charged_expression_nil (floor : Precedence) : (expression endLine floor []).Charged 1 := by
  rw [expression]
  -- The credit of the end marker is spent where no token is left to begin another operand.
  exact Nat.le_refl 1

theorem charged_expression_cons {floor : Precedence} {token : Token} {input : List Token}
    (hfrom : (expressionFrom endLine floor token input).Charged (input.length + 2)) :
    (expression endLine floor (token :: input)).Charged ((token :: input).length + 1) := by
  rw [expression]
  exact hfrom.behind

theorem charged_expressionFrom_none {floor : Precedence} {token : Token} {input : List Token}
    (hopening : token.kind.opening? = none) :
    (expressionFrom endLine floor token input).Charged (input.length + 2) := by
  rw [expressionFrom, hopening]
  exact charged_fail (Nat.succ_le_succ (credit_le input))

theorem charged_expressionFrom_some {floor : Precedence} {token : Token} {input : List Token}
    {opening : Opening} (hopening : token.kind.opening? = some opening)
    (hoperand : (operand endLine opening token input).Charged (input.length + 2))
    (hchain : ∀ left (rest : List Token), rest.length ≤ input.length →
      (chain endLine floor left rest).Charged (credit rest)) :
    (expressionFrom endLine floor token input).Charged (input.length + 2) := by
  rw [expressionFrom, hopening]
  exact hoperand.bind 0 hchain

theorem charged_chain_stop {floor : Precedence} {left : Expr} {input : List Token}
    (hstops : Stops floor input) : (chain endLine floor left input).Charged (credit input) := by
  rw [chain_of_stops hstops]
  exact charged_of_clean rfl (Nat.le_refl _)

theorem charged_chain_operator {floor : Precedence} {left : Expr} {token : Token}
    {input : List Token} (hfloor : floor < token.kind.precedence)
    (hright : (expression endLine token.kind.precedence input).Charged (input.length + 1))
    (hchain : ∀ right (rest : List Token), rest.length ≤ input.length →
      (chain endLine floor (.binary token left token.literal right) rest).Charged (credit rest)) :
    (chain endLine floor left (token :: input)).Charged (credit (token :: input)) := by
  rw [chain, if_pos hfloor]
  apply Charged.behind
  apply (hright.bind 0 hchain).mono
  simp

theorem charged_operand_name (token : Token) (input : List Token) :
    (operand endLine .name token input).Charged (input.length + 2) := by
  rw [operand]
  exact charged_of_clean rfl (Nat.le_succ_of_le (credit_le input))

theorem charged_operand_integer (token : Token) (input : List Token) :
    (operand endLine .integer token input).Charged (input.length + 2) := by
  have hcredit := credit_le input
  rw [operand, integer]
  split
  · exact charged_of_clean rfl (by omega)
  · exact charged_fail (by omega)

theorem charged_operand_boolean (token : Token) (input : List Token) :
    (operand endLine .boolean token input).Charged (input.length + 2) := by
  rw [operand]
  exact charged_of_clean rfl (Nat.le_succ_of_le (credit_le input))

theorem charged_operand_unary {token : Token} {input : List Token}
    (hinner : (expression endLine .unary input).Charged (input.length + 1)) :
    (operand endLine .unary token input).Charged (input.length + 2) := by
  rw [operand_unary]
  exact hinner.map.mono (Nat.le_succ _)

theorem charged_operand_group {token : Token} {input : List Token}
    (hinner : (enclosed endLine input).Charged (input.length + 2)) :
    (operand endLine .group token input).Charged (input.length + 2) := by
  rw [operand_group]
  exact hinner.map

theorem charged_conditionalTail {token : Token} {condition : Expr} {consequence : Block}
    {word : Token} {input : List Token}
    (hbraced : (braced endLine input).Charged (credit input + 1)) :
    (conditionalTail endLine token condition consequence (some word) input).Charged
      (credit input + 1) := by
  rw [conditionalTail]
  apply hbraced.andThen 0
  intro alternative rest hle
  exact charged_of_clean rfl (Nat.le_refl _)

/-- The keyword is charged with a missing parenthesis or with a missing block, the opening
parenthesis with the closing one, and the second keyword with the second block. -/
theorem charged_operand_conditional {token : Token} {input : List Token}
    (henclosed : ∀ rest : List Token, rest.length ≤ input.length →
      (enclosed endLine rest).Charged (rest.length + 2))
    (hbraced : ∀ rest : List Token, rest.length ≤ input.length →
      (braced endLine rest).Charged (credit rest + 1)) :
    (operand endLine .conditional token input).Charged (input.length + 2) := by
  rw [operand_conditional]
  apply charged_expect_andThen
  · exact Nat.succ_le_succ (credit_le input)
  · intro opening afterOpening hleOpening hinput
    subst hinput
    apply (henclosed afterOpening hleOpening).andThen 1
    intro condition afterCondition hleCondition
    apply (hbraced afterCondition (by omega)).andThen 0
    intro consequence afterConsequence hleConsequence
    apply charged_accept_bind
    · exact charged_of_clean rfl (Nat.le_refl _)
    · intro word afterWord hleWord hword
      have hcredit := credit_le afterWord
      apply (charged_conditionalTail (hbraced afterWord (by omega))).mono
      rw [hword, credit_cons]
      omega

theorem charged_enclosed {input : List Token}
    (hinner : (expression endLine .lowest input).Charged (input.length + 1)) :
    (enclosed endLine input).Charged (input.length + 2) := by
  rw [enclosed]
  apply hinner.bind 1
  intro inner rest hle
  exact (charged_expect endLine .rparen rest).map

theorem charged_braced {input : List Token}
    (hblock : ∀ mark (rest : List Token), rest.length ≤ input.length →
      (block endLine mark rest).Charged (credit rest)) :
    (braced endLine input).Charged (credit input + 1) := by
  rw [braced]
  apply charged_expect_andThen (Nat.le_refl _)
  intro mark rest hle hinput
  have hcredit := credit_le rest
  apply ((hblock mark rest hle).map).mono
  rw [hinput, credit_cons]
  omega

theorem charged_block {mark : Token} {input : List Token}
    (hsequence : (sequence endLine .block input).Charged (credit input)) :
    (block endLine mark input).Charged (credit input) := by
  rw [block]
  apply hsequence.bind 0
  intro statements rest hle
  exact (charged_of_clean (faults_advance rest) (Nat.le_refl _)).map

/-- The keyword is charged with the missing name or with the missing sign; behind either
nothing else is asked for. -/
theorem charged_statement_binding {token : Token} {input : List Token}
    (hword : token.kind = .letWord) :
    (statement endLine token input).Charged (input.length + 2) := by
  rw [statement, hword]
  apply charged_expect_andThen
  · exact Nat.succ_le_succ (credit_le input)
  · intro name afterName hleName hinput
    have hcreditName := credit_le afterName
    apply charged_expect_andThen
    · omega
    · intro sign afterSign hleSign hafterName
      have hcreditSign := credit_le afterSign
      exact (charged_of_clean (faults_skipStatement afterSign) (by omega)).map

theorem charged_statement_result {token : Token} {input : List Token}
    (hword : token.kind = .returnWord) :
    (statement endLine token input).Charged (input.length + 2) := by
  have hcredit := credit_le input
  rw [statement, hword]
  exact (charged_of_clean (faults_skipStatement input) (by omega)).map

theorem charged_statement_expression {token : Token} {input : List Token}
    (hlet : token.kind ≠ .letWord) (hreturn : token.kind ≠ .returnWord)
    (hfrom : (expressionFrom endLine .lowest token input).Charged (input.length + 2)) :
    (statement endLine token input).Charged (input.length + 2) := by
  rw [statement_eq_expression hlet hreturn]
  apply hfrom.bind 0
  intro value rest hle
  exact (charged_of_clean (faults_accept .semicolon rest) (Nat.le_refl _)).map

theorem charged_sequence_stop {scope : Scope} {input : List Token} (hends : Ends scope input) :
    (sequence endLine scope input).Charged (credit input) := by
  rw [sequence_of_ends hends]
  exact charged_of_clean rfl (Nat.le_refl _)

theorem charged_sequence_cons {scope : Scope} {token : Token} {input : List Token}
    (hends : ¬ scope.endsAt token.kind = true)
    (hstatement : (statement endLine token input).Charged (input.length + 2))
    (hsequence : ∀ rest : List Token, rest.length ≤ input.length →
      (sequence endLine scope rest).Charged (credit rest)) :
    (sequence endLine scope (token :: input)).Charged (credit (token :: input)) := by
  rw [sequence, if_neg hends]
  apply Charged.behind
  apply hstatement.bind 0
  intro first rest hle
  exact (hsequence rest hle).map

def chargedMotive (endLine : Nat) : Motive where
  expression floor input := (expression endLine floor input).Charged (input.length + 1)
  expressionFrom floor token input :=
    (expressionFrom endLine floor token input).Charged (input.length + 2)
  operand opening token input := (operand endLine opening token input).Charged (input.length + 2)
  enclosed input := (enclosed endLine input).Charged (input.length + 2)
  braced input := (braced endLine input).Charged (credit input + 1)
  chain floor left input := (chain endLine floor left input).Charged (credit input)
  block mark input := (block endLine mark input).Charged (credit input)
  statement token input := (statement endLine token input).Charged (input.length + 2)
  sequence scope input := (sequence endLine scope input).Charged (credit input)

theorem charged_cases (endLine : Nat) : (chargedMotive endLine).Cases where
  expression_nil := charged_expression_nil _
  expression_cons := charged_expression_cons
  expressionFrom_none := charged_expressionFrom_none
  expressionFrom_some := charged_expressionFrom_some
  operand_name := charged_operand_name _ _
  operand_integer := charged_operand_integer _ _
  operand_boolean := charged_operand_boolean _ _
  operand_unary := charged_operand_unary
  operand_group := charged_operand_group
  operand_conditional := charged_operand_conditional
  enclosed_of_expression := charged_enclosed
  braced_of_block := charged_braced
  chain_stop := charged_chain_stop
  chain_operator := charged_chain_operator
  block_of_sequence := charged_block
  statement_binding := charged_statement_binding
  statement_result := charged_statement_result
  statement_expression := charged_statement_expression
  sequence_stop := charged_sequence_stop
  sequence_cons := charged_sequence_cons

theorem charged_sequence (endLine : Nat) (scope : Scope) (input : List Token) :
    (sequence endLine scope input).Charged (credit input) :=
  (charged_cases endLine).holds.sequence scope input

/-! ## Unclosed groups -/

section Unclosed

variable {opening : Token} {input : List Token}

theorem expect_at_end (endLine : Nat) (kind : Kind) (hinput : input = []) :
    (expect endLine kind input).faults.length = 1 ∧ (expect endLine kind input).rest = [] := by
  subst hinput
  exact ⟨rfl, rfl⟩

theorem chain_at_end (floor : Precedence) (left : Expr) (hinput : input = []) :
    (chain endLine floor left input).faults = [] ∧ (chain endLine floor left input).rest = [] := by
  subst hinput
  rw [chain]
  exact ⟨rfl, rfl⟩

/-- A group that runs into the end of the input has one fault more than what is inside. -/
theorem group_at_end (floor : Precedence) (hopening : opening.kind.opening? = some .group)
    (hend : (expression endLine .lowest input).rest = []) :
    (expressionFrom endLine floor opening input).faults.length =
        (expression endLine .lowest input).faults.length + 1 ∧
      (expressionFrom endLine floor opening input).rest = [] := by
  have hclosing := expect_at_end endLine .rparen hend
  have hfrom : expressionFrom endLine floor opening input =
      (operand endLine .group opening input).bind fun left rest _ =>
        chain endLine floor left rest := by
    rw [expressionFrom, hopening]
  rw [hfrom, operand_group, enclosed]
  simp only [Step.bind, Step.map, List.length_append]
  rw [(chain_at_end floor _ hclosing.2).1, hclosing.1]
  exact ⟨rfl, (chain_at_end floor _ hclosing.2).2⟩

theorem expression_unclosed (endLine : Nat) (hopening : opening.kind.opening? = some .group)
    (count : Nat) :
    ∀ floor, (expression endLine floor (.replicate count opening)).faults.length = count + 1 ∧
      (expression endLine floor (.replicate count opening)).rest = [] := by
  induction count with
  | zero =>
      intro floor
      rw [List.replicate_zero, expression]
      exact ⟨rfl, rfl⟩
  | succ count ih =>
      intro floor
      have hgroup := group_at_end floor hopening (ih .lowest).2
      rw [(ih .lowest).1] at hgroup
      rw [List.replicate_succ, expression]
      exact hgroup

theorem faults_unclosed (hkind : opening.kind = .lparen) (count : Nat) :
    (sequence endLine .program (.replicate (count + 1) opening)).faults.length = count + 2 := by
  have hopening : opening.kind.opening? = some .group := by
    rw [hkind]
    rfl
  have hinner := expression_unclosed endLine hopening count .lowest
  have hgroup := group_at_end .lowest hopening hinner.2
  have hends : ¬ Scope.program.endsAt opening.kind = true := by simp [hkind, Scope.endsAt]
  rw [List.replicate_succ, sequence, if_neg hends]
  rw [statement_eq_expression (by simp [hkind]) (by simp [hkind])]
  simp only [Step.behind, Step.bind, Step.map, List.length_append]
  rw [hgroup.1, hinner.1, hgroup.2]
  simp [accept, sequence, Step.pure]

end Unclosed

/-- Reading finds at most one fault for each token and one for the end marker, and so many
are found in a run of opening parentheses. -/
theorem faults_le_tokens (endLine : Nat) :
    (∀ tokens, (start tokens endLine).program.2.faults.length ≤ tokens.length + 1) ∧
    ∀ literal line count, (start (.replicate (count + 1) ⟨.lparen, literal, line⟩)
      endLine).program.2.faults.length = count + 2 := by
  constructor
  · intro tokens
    have hcharged := charged_sequence endLine .program tokens
    have hcredit := credit_le tokens
    unfold Charged at hcharged
    simp only [program, start, List.nil_append]
    omega
  · intro literal line count
    exact faults_unclosed rfl count

end Parser

end Scriptlet
