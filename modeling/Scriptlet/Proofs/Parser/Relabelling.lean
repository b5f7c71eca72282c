import Scriptlet.Proofs.Grammar.Completeness
import Scriptlet.Value

/-!
# Lines and texts do not steer the parser

The parser decides by the kinds of tokens, and by the text of an integer only whether it
names one.  Change the lines and the other texts everywhere, and the tree and the faults
are those of before with the same change.  The two runs go side by side: the combinators
keep that one step is echoed by another, and so do the functions of the parser.
-/

namespace Scriptlet

structure Relabelling where
  line : Nat → Nat
  text : String → String

/-- The token with its line and its text changed; an integer keeps its text. -/
def Relabelling.token (change : Relabelling) (token : Token) : Token :=
  ⟨token.kind, if token.kind = .int then token.literal else change.text token.literal,
    change.line token.line⟩

namespace Relabelling

variable (change : Relabelling)

@[simp] theorem token_kind (token : Token) : (change.token token).kind = token.kind :=
  rfl

@[simp] theorem token_line (token : Token) : (change.token token).line = change.line token.line :=
  rfl

theorem token_literal_of_int {token : Token} (hkind : token.kind = .int) :
    (change.token token).literal = token.literal :=
  if_pos hkind

theorem token_literal_of_ne {token : Token} (hkind : token.kind ≠ .int) :
    (change.token token).literal = change.text token.literal :=
  if_neg hkind

theorem front_map (property : Kind → Prop) {tokens : List Token}
    (hfront : Front (fun token => property token.kind) tokens) :
    Front (fun token => property token.kind) (tokens.map change.token) := by
  cases tokens with
  | nil => exact front_nil
  | cons token rest => exact front_cons_iff.mpr (front_cons_iff.mp hfront)

end Relabelling

section Trees

variable (change : Relabelling)

def Identifier.relabel (identifier : Identifier) : Identifier :=
  ⟨change.token identifier.token, change.text identifier.text⟩

mutual

def Expr.relabel : Expr → Expr
  | .missing => .missing
  | .name identifier => .name (identifier.relabel change)
  | .integer token value => .integer (change.token token) value
  | .boolean token value => .boolean (change.token token) value
  | .unary token operator operand =>
    .unary (change.token token) (change.text operator) operand.relabel
  | .binary token left operator right =>
    .binary (change.token token) left.relabel (change.text operator) right.relabel
  | .conditional token condition consequence none =>
    .conditional (change.token token) condition.relabel consequence.relabel none
  | .conditional token condition consequence (some alternative) =>
    .conditional (change.token token) condition.relabel consequence.relabel
      (some alternative.relabel)

def Block.relabel : Block → Block
  | .mk token statements => .mk (change.token token) (Stmt.relabelAll statements)

def Stmt.relabel : Stmt → Stmt
  | .binding token name value =>
    .binding (change.token token) (name.relabel change) value.relabel
  | .result token value => .result (change.token token) value.relabel
  | .expression token value => .expression (change.token token) value.relabel

def Stmt.relabelAll : List Stmt → List Stmt
  | [] => []
  | statement :: statements => statement.relabel :: Stmt.relabelAll statements

end

attribute [simp] Expr.relabel Block.relabel Stmt.relabel

def Program.relabel (program : Program) : Program :=
  ⟨Stmt.relabelAll change program.statements⟩

@[simp] theorem Stmt.relabelAll_eq_map (statements : List Stmt) :
    Stmt.relabelAll change statements = statements.map (Stmt.relabel change) := by
  induction statements with
  | nil => simp [relabelAll]
  | cons statement statements ih => simp [relabelAll, ih]

theorem Expr.eval_relabel (value : Expr) : (value.relabel change).eval = value.eval := by
  cases value with
  | conditional token condition consequence alternative => cases alternative <;> simp [eval]
  | _ => simp [eval]

theorem Stmt.eval_relabel (statement : Stmt) :
    (statement.relabel change).eval = statement.eval := by
  cases statement <;> simp [eval, Expr.eval_relabel]

theorem Program.eval_relabel (program : Program) :
    (program.relabel change).eval = program.eval := by
  have hstatement : Stmt.eval ∘ Stmt.relabel change = Stmt.eval :=
    funext (Stmt.eval_relabel change)
  simp only [eval, relabel, Stmt.relabelAll_eq_map, List.getLast?_map, Option.bind_map, hstatement]

end Trees

def Fault.relabel (line : Nat → Nat) : Fault → Fault
  | .unexpected expected found place => .unexpected expected found (line place)
  | .noOperand kind place => .noOperand kind (line place)
  | .badInteger literal place => .badInteger literal (line place)

namespace Step

variable {α β γ δ : Type} {input other : List Token} {change : Relabelling}

/-- The second step does what the first does, with everything changed. -/
structure Echoes (change : Relabelling) (f : α → β) (step : Step α input)
    (echo : Step β other) : Prop where
  value_eq : echo.value = f step.value
  faults_eq : echo.faults = step.faults.map (Fault.relabel change.line)
  overrun_eq : echo.overrun = step.overrun
  rest_eq : echo.rest = step.rest.map change.token

theorem echoes_pure {f : α → β} {value : α} {changed : β} (hvalue : changed = f value) :
    Echoes change f (pure value : Step α input)
      (pure changed : Step β (input.map change.token)) :=
  ⟨hvalue, rfl, rfl, rfl⟩

theorem echoes_fail {f : α → β} {value : α} {changed : β} {fault found : Fault}
    (hvalue : changed = f value) (hfault : found = fault.relabel change.line) :
    Echoes change f (fail value fault : Step α input)
      (fail changed found : Step β (input.map change.token)) :=
  ⟨hvalue, congrArg (fun fault => [fault]) hfault, rfl, rfl⟩

theorem Echoes.behind {f : α → β} {step : Step α input} {echo : Step β other}
    (hstep : Echoes change f step echo) (token : Token) :
    Echoes change f (step.behind token) (echo.behind (change.token token)) :=
  ⟨hstep.value_eq, hstep.faults_eq, hstep.overrun_eq, hstep.rest_eq⟩

theorem Echoes.map {f : α → β} {g : γ → δ} {step : Step α input} {echo : Step β other}
    {h : α → γ} {k : β → δ} (hstep : Echoes change f step echo)
    (hvalue : ∀ value, k (f value) = g (h value)) :
    Echoes change g (step.map h) (echo.map k) := by
  refine ⟨?_, hstep.faults_eq, hstep.overrun_eq, hstep.rest_eq⟩
  rw [Step.map, hstep.value_eq]
  exact hvalue step.value

theorem Echoes.bind {f : α → β} {g : γ → δ} {first : Step α input} {echo : Step β other}
    {next : α → (rest : List Token) → rest.length ≤ input.length → Step γ rest}
    {nextEcho : β → (rest : List Token) → rest.length ≤ other.length → Step δ rest}
    (hfirst : Echoes change f first echo)
    (hnext : ∀ (rest : List Token) hle hleEcho, Echoes change g (next first.value rest hle)
      (nextEcho (f first.value) (rest.map change.token) hleEcho)) :
    Echoes change g (first.bind next) (echo.bind nextEcho) := by
  -- The echo's value and rest are the changed ones by equations, not by definition.
  have hsecond : ∀ value (rest : List Token) hle, value = f first.value →
      rest = first.rest.map change.token →
      Echoes change g (next first.value first.rest first.rest_suffix.length_le)
        (nextEcho value rest hle) := by
    rintro _ _ hle rfl rfl
    exact hnext _ _ _
  obtain ⟨hvalue, hfaults, hoverrun, hrest⟩ :=
    hsecond echo.value echo.rest echo.rest_suffix.length_le hfirst.value_eq hfirst.rest_eq
  refine ⟨hvalue, ?_, ?_, hrest⟩
  · simp only [Step.bind, hfirst.faults_eq, hfaults, List.map_append]
  · simp only [Step.bind, hfirst.overrun_eq, hoverrun]

theorem Echoes.andThen {f : α → β} {g : γ → δ} {first : Step (Option α) input}
    {echo : Step (Option β) other} {otherwise : γ} {otherwiseEcho : δ}
    {next : α → (rest : List Token) → rest.length ≤ input.length → Step γ rest}
    {nextEcho : β → (rest : List Token) → rest.length ≤ other.length → Step δ rest}
    (hfirst : Echoes change (Option.map f) first echo) (hotherwise : otherwiseEcho = g otherwise)
    (hnext : ∀ value (rest : List Token) hle hleEcho, first.value = some value →
      Echoes change g (next value rest hle)
        (nextEcho (f value) (rest.map change.token) hleEcho)) :
    Echoes change g (first.andThen otherwise next) (echo.andThen otherwiseEcho nextEcho) := by
  apply hfirst.bind
  intro rest hle hleEcho
  cases hfound : first.value with
  | none => exact echoes_pure hotherwise
  | some value => exact hnext value rest hle hleEcho hfound

theorem echoes_expect (endLine : Nat) (kind : Kind) (input : List Token) :
    Echoes change (Option.map change.token) (expect endLine kind input)
      (expect (change.line endLine) kind (input.map change.token)) := by
  cases input with
  | nil => exact echoes_fail rfl rfl
  | cons token rest =>
      rw [List.map_cons, expect, expect, change.token_kind, change.token_line]
      split
      · exact (echoes_pure rfl).behind token
      · exact echoes_fail rfl rfl

theorem kind_of_expect {endLine : Nat} {kind : Kind} {token : Token}
    (hfound : (expect endLine kind input).value = some token) : token.kind = kind := by
  cases input with
  | nil => contradiction
  | cons head rest =>
      by_cases hkind : head.kind = kind
      · simp only [expect, if_pos hkind, behind, pure, Option.some.injEq] at hfound
        rwa [← hfound]
      · simp [expect, hkind, fail] at hfound

theorem echoes_accept (kind : Kind) (input : List Token) :
    Echoes change (Option.map change.token) (accept kind input)
      (accept kind (input.map change.token)) := by
  cases input with
  | nil => exact echoes_pure rfl
  | cons token rest =>
      rw [List.map_cons, accept, accept, change.token_kind]
      split
      · exact (echoes_pure rfl).behind token
      · exact echoes_pure rfl

theorem echoes_advance (input : List Token) :
    Echoes change id (advance input) (advance (input.map change.token)) := by
  cases input with
  | nil => exact ⟨rfl, rfl, rfl, rfl⟩
  | cons token rest => exact ⟨rfl, rfl, rfl, rfl⟩

theorem echoes_skipStatement (input : List Token) :
    Echoes change id (skipStatement input) (skipStatement (input.map change.token)) := by
  induction input with
  | nil => exact echoes_advance []
  | cons token rest ih =>
      rw [List.map_cons, skipStatement, skipStatement, change.token_kind]
      split
      · exact (echoes_pure rfl).behind token
      · exact ih.behind token

end Step

namespace Parser

open Step

variable {change : Relabelling} {endLine : Nat}

/-! ## The functions of the parser -/

section Functions

variable (change endLine)

def ExpressionEchoes (floor : Precedence) (input : List Token) : Prop :=
  Echoes change (Expr.relabel change) (expression endLine floor input)
    (expression (change.line endLine) floor (input.map change.token))

def ExpressionFromEchoes (floor : Precedence) (token : Token) (input : List Token) : Prop :=
  Echoes change (Expr.relabel change) (expressionFrom endLine floor token input)
    (expressionFrom (change.line endLine) floor (change.token token) (input.map change.token))

def ChainEchoes (floor : Precedence) (left : Expr) (input : List Token) : Prop :=
  Echoes change (Expr.relabel change) (chain endLine floor left input)
    (chain (change.line endLine) floor (left.relabel change) (input.map change.token))

def OperandEchoes (opening : Opening) (token : Token) (input : List Token) : Prop :=
  -- Integers keep their texts, so the kind has to be one that opens the operand.
  token.kind ∈ opening.kinds →
    Echoes change (Expr.relabel change) (operand endLine opening token input)
      (operand (change.line endLine) opening (change.token token) (input.map change.token))

def BracedEchoes (input : List Token) : Prop :=
  Echoes change (Option.map (Block.relabel change)) (braced endLine input)
    (braced (change.line endLine) (input.map change.token))

def BlockEchoes (mark : Token) (input : List Token) : Prop :=
  Echoes change (Block.relabel change) (block endLine mark input)
    (block (change.line endLine) (change.token mark) (input.map change.token))

def SequenceEchoes (scope : Scope) (input : List Token) : Prop :=
  Echoes change (Stmt.relabelAll change) (sequence endLine scope input)
    (sequence (change.line endLine) scope (input.map change.token))

def StatementEchoes (token : Token) (input : List Token) : Prop :=
  Echoes change (Option.map (Stmt.relabel change)) (statement endLine token input)
    (statement (change.line endLine) (change.token token) (input.map change.token))

def EnclosedEchoes (input : List Token) : Prop :=
  Echoes change (Option.map (Expr.relabel change)) (enclosed endLine input)
    (enclosed (change.line endLine) (input.map change.token))

end Functions

theorem expressionEchoes_nil (floor : Precedence) : ExpressionEchoes change endLine floor [] := by
  rw [ExpressionEchoes, List.map_nil, expression, expression]
  exact ⟨by simp, rfl, rfl, rfl⟩

theorem expressionEchoes_cons {floor : Precedence} {token : Token} {input : List Token}
    (hfrom : ExpressionFromEchoes change endLine floor token input) :
    ExpressionEchoes change endLine floor (token :: input) := by
  rw [ExpressionEchoes, List.map_cons, expression, expression]
  exact hfrom.behind token

theorem expressionFromEchoes_none {floor : Precedence} {token : Token} {input : List Token}
    (hopening : token.kind.opening? = none) :
    ExpressionFromEchoes change endLine floor token input := by
  rw [ExpressionFromEchoes, expressionFrom, expressionFrom, change.token_kind, hopening]
  exact echoes_fail (by simp) rfl

theorem expressionFromEchoes_some {floor : Precedence} {token : Token} {input : List Token}
    {opening : Opening} (hopening : token.kind.opening? = some opening)
    (hoperand : OperandEchoes change endLine opening token input)
    (hchain : ∀ left (rest : List Token), rest.length ≤ input.length →
      ChainEchoes change endLine floor left rest) :
    ExpressionFromEchoes change endLine floor token input := by
  rw [ExpressionFromEchoes, expressionFrom, expressionFrom, change.token_kind, hopening]
  apply (hoperand (Kind.opening?_eq_some_iff.mp hopening)).bind
  intro rest hle _
  exact hchain _ rest hle

theorem chainEchoes_stop {floor : Precedence} {left : Expr} {input : List Token}
    (hstops : Stops floor input) : ChainEchoes change endLine floor left input := by
  have hchanged : Stops floor (input.map change.token) := change.front_map (fun kind => ¬ floor < kind.precedence) hstops
  rw [ChainEchoes, chain_of_stops hstops, chain_of_stops hchanged]
  exact echoes_pure rfl

theorem chainEchoes_operator {floor : Precedence} {left : Expr} {token : Token}
    {input : List Token} (hfloor : floor < token.kind.precedence)
    (hright : ExpressionEchoes change endLine token.kind.precedence input)
    (hchain : ∀ right (rest : List Token), rest.length ≤ input.length →
      ChainEchoes change endLine floor (.binary token left token.literal right) rest) :
    ChainEchoes change endLine floor left (token :: input) := by
  have hkind : token.kind ≠ .int := by
    intro hkind
    rw [hkind] at hfloor
    exact Nat.not_lt_zero _ hfloor
  rw [ChainEchoes, List.map_cons, chain, chain, change.token_kind, if_pos hfloor,
    if_pos hfloor]
  refine (hright.bind ?_).behind token
  intro rest hle _
  rw [change.token_literal_of_ne hkind]
  simpa [ChainEchoes] using hchain _ rest hle

theorem operandEchoes_name (token : Token) (input : List Token) :
    OperandEchoes change endLine .name token input := by
  intro hopens
  have hkind : token.kind ≠ .int := by
    rw [List.mem_singleton.mp hopens]
    decide
  rw [operand, operand, change.token_literal_of_ne hkind]
  exact echoes_pure (by simp [Identifier.relabel])

theorem operandEchoes_integer (token : Token) (input : List Token) :
    OperandEchoes change endLine .integer token input := by
  intro hopens
  have hkind : token.kind = .int := List.mem_singleton.mp hopens
  rw [operand, operand, integer, integer, change.token_literal_of_int hkind]
  split
  · exact echoes_pure (by simp)
  · exact echoes_fail (by simp) rfl

theorem operandEchoes_boolean (token : Token) (input : List Token) :
    OperandEchoes change endLine .boolean token input := by
  intro _
  rw [operand, operand, change.token_kind]
  exact echoes_pure (by simp)

theorem operandEchoes_unary {token : Token} {input : List Token}
    (hoperand : ExpressionEchoes change endLine .unary input) :
    OperandEchoes change endLine .unary token input := by
  intro hopens
  have hkind : token.kind ≠ .int := by
    intro hkind
    simp [Opening.kinds, hkind] at hopens
  rw [operand_unary, operand_unary, change.token_literal_of_ne hkind]
  apply hoperand.map
  simp

theorem operandEchoes_group {token : Token} {input : List Token}
    (hinner : EnclosedEchoes change endLine input) :
    OperandEchoes change endLine .group token input := by
  intro _
  rw [operand_group, operand_group]
  apply hinner.map
  intro inner
  cases inner <;> simp

theorem echoes_conditionalTail {token : Token} {condition : Expr} {consequence : Block}
    {word : Option Token} {input : List Token} (hbraced : BracedEchoes change endLine input) :
    Echoes change (Expr.relabel change)
      (conditionalTail endLine token condition consequence word input)
      (conditionalTail (change.line endLine) (change.token token) (condition.relabel change)
        (consequence.relabel change) (word.map change.token) (input.map change.token)) := by
  cases word with
  | none => exact echoes_pure (by simp)
  | some word =>
      apply hbraced.andThen (by simp)
      intro alternative rest hle _ _
      exact echoes_pure (by simp)

theorem operandEchoes_conditional {token : Token} {input : List Token}
    (henclosed : ∀ rest : List Token, rest.length ≤ input.length →
      EnclosedEchoes change endLine rest)
    (hbraced : ∀ rest : List Token, rest.length ≤ input.length →
      BracedEchoes change endLine rest) :
    OperandEchoes change endLine .conditional token input := by
  intro _
  rw [operand_conditional, operand_conditional]
  apply (echoes_expect endLine .lparen input).andThen (by simp)
  intro _ afterOpening hleOpening _ _
  apply (henclosed afterOpening hleOpening).andThen (by simp)
  intro condition afterCondition hleCondition _ _
  apply (hbraced afterCondition (by omega)).andThen (by simp)
  intro consequence afterConsequence hleConsequence _ _
  apply (echoes_accept .elseWord afterConsequence).bind
  intro afterWord hleWord _
  exact echoes_conditionalTail (hbraced afterWord (by omega))

theorem enclosedEchoes_of_expression {input : List Token}
    (hinner : ExpressionEchoes change endLine .lowest input) :
    EnclosedEchoes change endLine input := by
  rw [EnclosedEchoes, enclosed, enclosed]
  apply hinner.bind
  intro rest hle _
  apply (echoes_expect endLine .rparen rest).map
  intro closing
  cases closing <;> simp

theorem bracedEchoes_of_block {input : List Token}
    (hblock : ∀ mark (rest : List Token), rest.length ≤ input.length →
      BlockEchoes change endLine mark rest) :
    BracedEchoes change endLine input := by
  rw [BracedEchoes, braced, braced]
  apply (echoes_expect endLine .lbrace input).andThen (by simp)
  intro mark rest hle _ _
  apply (hblock mark rest hle).map
  simp

theorem blockEchoes_of_sequence {mark : Token} {input : List Token}
    (hsequence : SequenceEchoes change endLine .block input) :
    BlockEchoes change endLine mark input := by
  rw [BlockEchoes, block, block]
  apply hsequence.bind
  intro rest hle _
  apply (echoes_advance rest).map
  simp

theorem statementEchoes_binding {token : Token} {input : List Token}
    (hword : token.kind = .letWord) : StatementEchoes change endLine token input := by
  rw [StatementEchoes, statement, statement, change.token_kind, hword]
  apply (echoes_expect endLine .ident input).andThen (by simp)
  intro name afterName hleName _ hname
  have hkind : name.kind ≠ .int := by
    rw [kind_of_expect hname]
    decide
  rw [change.token_literal_of_ne hkind]
  apply (echoes_expect endLine .assign afterName).andThen (by simp)
  intro sign afterSign hleSign _ _
  apply (echoes_skipStatement afterSign).map
  simp [Identifier.relabel]

theorem statementEchoes_result {token : Token} {input : List Token}
    (hword : token.kind = .returnWord) : StatementEchoes change endLine token input := by
  rw [StatementEchoes, statement, statement, change.token_kind, hword]
  apply (echoes_skipStatement input).map
  simp

theorem statementEchoes_expression {token : Token} {input : List Token}
    (hlet : token.kind ≠ .letWord) (hreturn : token.kind ≠ .returnWord)
    (hfrom : ExpressionFromEchoes change endLine .lowest token input) :
    StatementEchoes change endLine token input := by
  have hletChanged : (change.token token).kind ≠ .letWord := hlet
  have hreturnChanged : (change.token token).kind ≠ .returnWord := hreturn
  rw [StatementEchoes, statement_eq_expression hlet hreturn,
    statement_eq_expression hletChanged hreturnChanged]
  apply hfrom.bind
  intro rest hle _
  apply (echoes_accept .semicolon rest).map
  simp

theorem sequenceEchoes_stop {scope : Scope} {input : List Token} (hends : Ends scope input) :
    SequenceEchoes change endLine scope input := by
  have hchanged : Ends scope (input.map change.token) := change.front_map (fun kind => scope.endsAt kind = true) hends
  rw [SequenceEchoes, sequence_of_ends hends, sequence_of_ends hchanged]
  exact echoes_pure (by simp)

theorem sequenceEchoes_cons {scope : Scope} {token : Token} {input : List Token}
    (hends : ¬ scope.endsAt token.kind = true)
    (hstatement : StatementEchoes change endLine token input)
    (hsequence : ∀ rest : List Token, rest.length ≤ input.length →
      SequenceEchoes change endLine scope rest) :
    SequenceEchoes change endLine scope (token :: input) := by
  rw [SequenceEchoes, List.map_cons, sequence, sequence, change.token_kind, if_neg hends,
    if_neg hends]
  refine (hstatement.bind ?_).behind token
  intro rest hle _
  apply (hsequence rest hle).map
  simp [Option.toList_map]

def echoesMotive (change : Relabelling) (endLine : Nat) : Motive where
  expression := ExpressionEchoes change endLine
  expressionFrom := ExpressionFromEchoes change endLine
  operand := OperandEchoes change endLine
  enclosed := EnclosedEchoes change endLine
  braced := BracedEchoes change endLine
  chain := ChainEchoes change endLine
  block := BlockEchoes change endLine
  statement := StatementEchoes change endLine
  sequence := SequenceEchoes change endLine

theorem echoes_cases (change : Relabelling) (endLine : Nat) : (echoesMotive change endLine).Cases where
  expression_nil := expressionEchoes_nil _
  expression_cons := expressionEchoes_cons
  expressionFrom_none := expressionFromEchoes_none
  expressionFrom_some := expressionFromEchoes_some
  operand_name := operandEchoes_name _ _
  operand_integer := operandEchoes_integer _ _
  operand_boolean := operandEchoes_boolean _ _
  operand_unary := operandEchoes_unary
  operand_group := operandEchoes_group
  operand_conditional := operandEchoes_conditional
  enclosed_of_expression := enclosedEchoes_of_expression
  braced_of_block := bracedEchoes_of_block
  chain_stop := chainEchoes_stop
  chain_operator := chainEchoes_operator
  block_of_sequence := blockEchoes_of_sequence
  statement_binding := statementEchoes_binding
  statement_result := statementEchoes_result
  statement_expression := statementEchoes_expression
  sequence_stop := sequenceEchoes_stop
  sequence_cons := sequenceEchoes_cons

theorem sequenceEchoes (change : Relabelling) (endLine : Nat) (scope : Scope)
    (input : List Token) : SequenceEchoes change endLine scope input :=
  (echoes_cases change endLine).holds.sequence scope input

def relabel (change : Relabelling) (parser : Parser) : Parser :=
  ⟨parser.remaining.map change.token, change.line parser.endLine, parser.pulled,
    parser.faults.map (Fault.relabel change.line)⟩

theorem program_relabel (change : Relabelling) (parser : Parser) :
    (parser.relabel change).program =
      (parser.program.1.relabel change, parser.program.2.relabel change) := by
  obtain ⟨hvalue, hfaults, hoverrun, hrest⟩ :=
    sequenceEchoes change parser.endLine .program parser.remaining
  simp only [program, relabel, Program.relabel, taken, hvalue, hfaults, hoverrun, hrest,
    List.length_map, List.map_append]

/-! ## Texts with the same lexemes -/

/-- Puts everything on the line zero and changes no text. -/
def unlined : Relabelling :=
  ⟨fun _ => 0, id⟩

theorem unlined_token (token : Token) :
    unlined.token token = ⟨token.kind, token.literal, 0⟩ := by
  simp [Relabelling.token, unlined]

/-- The line of the end marker is seen in the faults alone. -/
theorem faults_and_pulled_of_line (tokens : List Token) (line other : Nat) :
    ((start tokens line).program.2.faults = [] ↔ (start tokens other).program.2.faults = []) ∧
      (start tokens line).program.2.pulled = (start tokens other).program.2.pulled := by
  have hparser : (start tokens line).relabel unlined = (start tokens other).relabel unlined := rfl
  have hread := congrArg (fun parser => parser.program.2) hparser
  simp only [program_relabel] at hread
  have hfaults := congrArg Parser.faults hread
  have hpulled := congrArg Parser.pulled hread
  simp only [relabel] at hfaults hpulled
  refine ⟨?_, hpulled⟩
  rw [← List.map_eq_nil_iff, hfaults, List.map_eq_nil_iff]

theorem relabel_ofSource_eq {first second : Source}
    (hlexemes : first.tokens.map (fun token => (token.kind, token.literal)) =
      second.tokens.map fun token => (token.kind, token.literal)) :
    (ofSource first).relabel unlined = (ofSource second).relabel unlined := by
  have htokens : ∀ source : Source, source.tokens.map unlined.token =
      (source.tokens.map fun token => (token.kind, token.literal)).map
        fun lexeme => ⟨lexeme.1, lexeme.2, 0⟩ := by
    intro source
    simp [unlined_token]
  have hline : ∀ line, unlined.line line = 0 := fun _ => rfl
  simp only [relabel, ofSource, start, htokens, hlexemes, hline, List.map_nil]

end Parser

theorem run_eq_of_lexemes {first second : String}
    (hlexemes : (Source.ofString first).tokens.map (fun token => (token.kind, token.literal)) =
      (Source.ofString second).tokens.map fun token => (token.kind, token.literal)) :
    (run first).mapError (List.map (Fault.relabel fun _ => 0)) =
      (run second).mapError (List.map (Fault.relabel fun _ => 0)) := by
  have hread := congrArg Parser.program (Parser.relabel_ofSource_eq hlexemes)
  rw [Parser.program_relabel, Parser.program_relabel] at hread
  obtain ⟨hprogram, hparser⟩ := Prod.mk.inj hread
  have heval := congrArg Program.eval hprogram
  rw [Program.eval_relabel, Program.eval_relabel] at heval
  have hfaults : (Parser.ofSource (.ofString first)).program.2.faults.map
        (Fault.relabel fun _ => 0) =
      (Parser.ofSource (.ofString second)).program.2.faults.map (Fault.relabel fun _ => 0) :=
    congrArg Parser.faults hparser
  have hempty := congrArg List.isEmpty hfaults
  rw [List.isEmpty_map, List.isEmpty_map] at hempty
  simp only [run, heval, hempty]
  split
  · rfl
  · exact congrArg Except.error hfaults

/-- A change of lines, and of texts other than those of integers, goes through the parser
unseen: tree and faults come out with the same change and as many tokens are taken.  So
texts with the same lexemes run to the same value, or to the same faults on other lines. -/
theorem reading_sees_kinds_and_integers :
    (∀ (change : Relabelling) (tokens : List Token) (endLine : Nat),
      let read := (Parser.start tokens endLine).program
      let changed := (Parser.start (tokens.map change.token) (change.line endLine)).program
      changed.1 = read.1.relabel change ∧
        changed.2.faults = read.2.faults.map (Fault.relabel change.line) ∧
        changed.2.pulled = read.2.pulled) ∧
    ∀ first second : String,
      (Source.ofString first).tokens.map (fun token => (token.kind, token.literal)) =
        (Source.ofString second).tokens.map (fun token => (token.kind, token.literal)) →
      (run first).mapError (List.map (Fault.relabel fun _ => 0)) =
        (run second).mapError (List.map (Fault.relabel fun _ => 0)) := by
  constructor
  · intro change tokens endLine read changed
    have hread : changed = (read.1.relabel change, read.2.relabel change) :=
      Parser.program_relabel change (Parser.start tokens endLine)
    rw [hread]
    exact ⟨rfl, rfl, rfl⟩
  · intro first second hlexemes
    exact run_eq_of_lexemes hlexemes

theorem unclosed_group_on_other_lines :
    (Source.ofString "(1\n\nx").tokens.map (fun token => (token.kind, token.literal)) =
        (Source.ofString "\n( 1 x").tokens.map (fun token => (token.kind, token.literal)) ∧
      (run "(1\n\nx").mapError (List.map (Fault.relabel fun _ => 0)) =
        (run "\n( 1 x").mapError (List.map (Fault.relabel fun _ => 0)) := by
  have hlexemes :
      (Source.ofString "(1\n\nx").tokens.map (fun token => (token.kind, token.literal)) =
        (Source.ofString "\n( 1 x").tokens.map (fun token => (token.kind, token.literal)) := by
    decide +kernel
  exact ⟨hlexemes, reading_sees_kinds_and_integers.2 _ _ hlexemes⟩

end Scriptlet
