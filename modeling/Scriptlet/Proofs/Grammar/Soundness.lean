import Scriptlet.Parser.Basic
import Scriptlet.Proofs.Grammar.Layers
import Scriptlet.Proofs.Parser.Induction
import Scriptlet.Proofs.Parser.Outcome

/-!
# Clean readings are derivations

What the parser reads without a fault, the grammar derives, if no end marker stands among
the tokens.  The statement for chains carries the argument.  A chain continues a left
operand that was derived before, and no operator tighter than the layer of that operand
can follow it: such an operator would have been read into the right operand.
-/

namespace Scriptlet

def EndFree (tokens : List Token) : Prop :=
  ∀ token ∈ tokens, token.kind ≠ .eof

instance (tokens : List Token) : Decidable (EndFree tokens) :=
  inferInstanceAs (Decidable (∀ token ∈ tokens, token.kind ≠ .eof))

theorem EndFree.of_suffix {tokens rest : List Token} (hfree : EndFree tokens)
    (hsuffix : rest <:+ tokens) : EndFree rest :=
  fun token hmem => hfree token (hsuffix.subset hmem)

theorem EndFree.append {first second : List Token} (hfirst : EndFree first)
    (hsecond : EndFree second) : EndFree (first ++ second) :=
  List.forall_mem_append.mpr ⟨hfirst, hsecond⟩

theorem EndFree.cons {token : Token} {tokens : List Token} {kind : Kind}
    (htoken : token.kind = kind) (hkind : kind ≠ .eof) (htokens : EndFree tokens) :
    EndFree (token :: tokens) :=
  List.forall_mem_cons.mpr ⟨by rwa [htoken], htokens⟩

theorem EndFree.tail {token : Token} {tokens : List Token} (hfree : EndFree (token :: tokens)) :
    EndFree tokens :=
  hfree.of_suffix (List.suffix_cons token tokens)

/-- The kinds of tokens that begin an operand in this way. -/
def Opening.kinds : Opening → List Kind
  | name => [.ident]
  | integer => [.int]
  | boolean => [.trueWord, .falseWord]
  | unary => [.bang, .minus]
  | group => [.lparen]
  | conditional => [.ifWord]

theorem Kind.opening?_eq_some_iff {kind : Kind} {opening : Opening} :
    kind.opening? = some opening ↔ kind ∈ opening.kinds := by
  constructor
  · intro hopening
    cases kind <;> cases hopening <;> simp [Opening.kinds]
  · revert kind
    cases opening <;> simp [Opening.kinds, opening?]

namespace Parser

open Step

theorem skips_of_reads {input : List Token} (hfree : EndFree input) {value : Unit}
    {rest : List Token} (hread : (skipStatement input).Reads False value rest) :
    Skips input rest := by
  rcases reads_skipStatement_iff.mp hread with
    ⟨skipped, mark, hskipped, hmark, rfl⟩ | ⟨_, rfl, hskipped⟩
  · have hend : mark.kind ≠ .eof := hfree mark (by simp)
    exact .semicolon (fun token hmem => (not_or.mp (hskipped token hmem)).1)
      (hmark.resolve_right hend)
  · exact .ending fun token hmem => (not_or.mp (hskipped token hmem)).1

section Statements

variable (endLine : Nat)

def ExpressionSound (floor : Precedence) (input : List Token) : Prop :=
  EndFree input → ∀ value rest, (expression endLine floor input).Reads False value rest →
    Derives (.expression (.above floor) value) input rest ∧ Stops floor rest

def ExpressionFromSound (floor : Precedence) (token : Token) (input : List Token) : Prop :=
  EndFree input → ∀ value rest, (expressionFrom endLine floor token input).Reads False value rest →
    Derives (.expression (.above floor) value) (token :: input) rest ∧ Stops floor rest

/-- The left operand was derived from `start`, and nothing tighter than its
layer follows. -/
def ChainSound (floor : Precedence) (left : Expr) (input : List Token) : Prop :=
  EndFree input → ∀ start layer, Derives (.expression layer left) start input →
    Layer.above floor ≤ layer → Stops layer.precedence input →
    ∀ value rest, (chain endLine floor left input).Reads False value rest →
      Derives (.expression (.above floor) value) start rest ∧ Stops floor rest

def OperandSound (opening : Opening) (token : Token) (input : List Token) : Prop :=
  EndFree input → token.kind ∈ opening.kinds →
    ∀ value rest, (operand endLine opening token input).Reads False value rest →
      Derives (.expression .unary value) (token :: input) rest

def BracedSound (input : List Token) : Prop :=
  EndFree input → ∀ found rest, (braced endLine input).Reads False found rest →
    ∃ value, found = some value ∧ Derives (.block value) input rest

def BlockSound (mark : Token) (input : List Token) : Prop :=
  EndFree input → mark.kind = .lbrace →
    ∀ value rest, (block endLine mark input).Reads False value rest →
      Derives (.block value) (mark :: input) rest

def SequenceSound (scope : Scope) (input : List Token) : Prop :=
  EndFree input → ∀ values rest, (sequence endLine scope input).Reads False values rest →
    Derives (.statements values) input rest ∧
      Front (fun token => scope.endsAt token.kind = true) rest

def StatementSound (token : Token) (input : List Token) : Prop :=
  EndFree input → ∀ found rest, (statement endLine token input).Reads False found rest →
    ∃ value, found = some value ∧ Derives (.statement value) (token :: input) rest

def EnclosedSound (input : List Token) : Prop :=
  EndFree input → ∀ found rest, (enclosed endLine input).Reads False found rest →
    ∃ value closing, found = some value ∧ closing.kind = .rparen ∧
      Derives (.expression .equality value) input (closing :: rest)

end Statements

variable {endLine : Nat}

theorem expressionSound_nil (floor : Precedence) : ExpressionSound endLine floor [] := by
  intro _ value rest hread
  have hfaults := hread.faults_eq
  simp [expression] at hfaults

theorem expressionSound_cons {floor : Precedence} {token : Token} {input : List Token}
    (hfrom : ExpressionFromSound endLine floor token input) :
    ExpressionSound endLine floor (token :: input) := by
  intro hfree value rest hread
  rw [expression, reads_behind_iff] at hread
  exact hfrom hfree.tail value rest hread

theorem expressionFromSound_none {floor : Precedence} {token : Token} {input : List Token}
    (hopening : token.kind.opening? = none) : ExpressionFromSound endLine floor token input := by
  intro _ value rest hread
  rw [expressionFrom, hopening] at hread
  exact absurd hread not_reads_fail

theorem expressionFromSound_some {floor : Precedence} {token : Token} {input : List Token}
    {opening : Opening} (hopening : token.kind.opening? = some opening)
    (hoperand : OperandSound endLine opening token input)
    (hchain : ∀ left (rest : List Token), rest.length ≤ input.length →
      ChainSound endLine floor left rest) :
    ExpressionFromSound endLine floor token input := by
  intro hfree value rest hread
  rw [expressionFrom, hopening] at hread
  obtain ⟨left, middle, hle, hleft, hright⟩ := reads_bind_iff.mp hread
  have hderives := hoperand hfree (Kind.opening?_eq_some_iff.mp hopening) left middle hleft
  have hstops : Stops Layer.unary.precedence middle := fun next _ =>
    Nat.not_lt.mpr (Layer.precedence_le_unary next.kind)
  exact hchain left middle hle (hfree.of_suffix hleft.suffix) (token :: input) .unary hderives
    (Layer.le_unary _) hstops value rest hright

theorem chainSound_stop {floor : Precedence} {left : Expr} {input : List Token}
    (hstops : Stops floor input) : ChainSound endLine floor left input := by
  intro _ start layer hleft hfloor _ value rest hread
  rw [chain_of_stops hstops, reads_pure_iff] at hread
  obtain ⟨hvalue, hrest⟩ := hread
  rw [hvalue, hrest]
  exact ⟨hleft.loosen hfloor, hstops⟩

theorem chainSound_operator {floor : Precedence} {left : Expr} {operator : Token}
    {input : List Token} (hfloor : floor < operator.kind.precedence)
    (hexpression : ExpressionSound endLine operator.kind.precedence input)
    (hchain : ∀ right (rest : List Token), rest.length ≤ input.length →
      ChainSound endLine floor (.binary operator left operator.literal right) rest) :
    ChainSound endLine floor left (operator :: input) := by
  intro hfree start layer hleft _ hstops value rest hread
  rw [chain, if_pos hfloor, reads_behind_iff] at hread
  obtain ⟨right, middle, hle, hright, hnext⟩ := reads_bind_iff.mp hread
  obtain ⟨own, hown, habove⟩ := Layer.exists_operator hfloor
  have hownPrecedence := Layer.precedence_of_mem_operators hown
  have hlayer : own ≤ layer := by
    have hnot := front_cons_iff.mp hstops
    rw [hownPrecedence] at hnot
    exact Nat.not_lt.mp hnot
  obtain ⟨hrightDerives, hrightStops⟩ := hexpression hfree.tail right middle hright
  rw [Layer.above_precedence hown] at hrightDerives
  rw [hownPrecedence] at hrightStops
  -- The layer falls to that of the operator, and the part on the right leaves nothing tighter.
  have hbinary : Derives (.expression own (.binary operator left operator.literal right))
      start middle := .binary (hleft.loosen hlayer) hown hrightDerives
  exact hchain right middle hle (hfree.tail.of_suffix hright.suffix) start own hbinary habove
    hrightStops value rest hnext

theorem operandSound_name (token : Token) (input : List Token) :
    OperandSound endLine .name token input := by
  intro _ hkind value rest hread
  rw [operand, reads_pure_iff] at hread
  obtain ⟨rfl, rfl⟩ := hread
  exact .name (List.mem_singleton.mp hkind)

theorem operandSound_integer (token : Token) (input : List Token) :
    OperandSound endLine .integer token input := by
  intro _ hkind value rest hread
  rw [operand, integer] at hread
  cases hvalue : Numeral.value? token.literal with
  | none =>
      rw [hvalue] at hread
      exact absurd hread not_reads_fail
  | some number =>
      rw [hvalue, reads_pure_iff] at hread
      obtain ⟨rfl, rfl⟩ := hread
      exact .integer (List.mem_singleton.mp hkind) hvalue

theorem operandSound_boolean (token : Token) (input : List Token) :
    OperandSound endLine .boolean token input := by
  intro _ hkind value rest hread
  rw [operand, reads_pure_iff] at hread
  obtain ⟨rfl, rfl⟩ := hread
  have hkinds : token.kind = .trueWord ∨ token.kind = .falseWord := by
    simpa [Opening.kinds] using hkind
  rcases hkinds with htrue | hfalse
  · rw [htrue]
    exact .truth htrue
  · rw [hfalse]
    exact .falsehood hfalse

theorem operandSound_unary {token : Token} {input : List Token}
    (hexpression : ExpressionSound endLine .unary input) :
    OperandSound endLine .unary token input := by
  intro hfree hkind value rest hread
  rw [operand, reads_map_iff] at hread
  obtain ⟨inner, hinner, rfl⟩ := hread
  have hkinds : token.kind = .bang ∨ token.kind = .minus := by
    simpa [Opening.kinds] using hkind
  exact .unary hkinds (hexpression hfree inner rest hinner).1

theorem operandSound_group {token : Token} {input : List Token}
    (henclosed : EnclosedSound endLine input) :
    OperandSound endLine .group token input := by
  intro hfree hkind value rest hread
  rw [operand, reads_map_iff] at hread
  obtain ⟨found, hfound, rfl⟩ := hread
  obtain ⟨inner, closing, rfl, hclosing, hinner⟩ := henclosed hfree found rest hfound
  exact .group (List.mem_singleton.mp hkind) hinner hclosing

theorem operandSound_conditional {token : Token} {input : List Token}
    (henclosed : ∀ rest : List Token, rest.length ≤ input.length → EnclosedSound endLine rest)
    (hbraced : ∀ rest : List Token, rest.length ≤ input.length → BracedSound endLine rest) :
    OperandSound endLine .conditional token input := by
  intro hfree hkind value rest hread
  have hword : token.kind = .ifWord := List.mem_singleton.mp hkind
  rw [operand, reads_andThen_iff not_reads_expect_none] at hread
  obtain ⟨opening, afterOpening, hleOpening, hopening, hread⟩ := hread
  obtain ⟨_, hsome, hopeningKind, rfl⟩ := reads_expect_iff.mp hopening
  obtain rfl := Option.some.inj hsome
  have hfreeOpening := hfree.tail
  rw [reads_andThen_iff (fun middle hnone => by
    obtain ⟨_, _, hfound, _⟩ := henclosed afterOpening hleOpening hfreeOpening none middle hnone
    contradiction)] at hread
  obtain ⟨condition, afterCondition, hleCondition, hcondition, hread⟩ := hread
  obtain ⟨_, closing, hsome, hclosing, hconditionDerives⟩ :=
    henclosed afterOpening hleOpening hfreeOpening _ _ hcondition
  obtain rfl := Option.some.inj hsome
  have hfreeCondition := hfreeOpening.of_suffix hcondition.suffix
  have hbracedCondition :=
    hbraced afterCondition (Nat.le_trans hleCondition hleOpening) hfreeCondition
  rw [reads_andThen_iff (fun middle hnone => by
    obtain ⟨_, hfound, _⟩ := hbracedCondition none middle hnone
    contradiction)] at hread
  obtain ⟨consequence, afterConsequence, hleConsequence, hconsequence, hread⟩ := hread
  obtain ⟨_, hsome, hconsequenceDerives⟩ := hbracedCondition _ _ hconsequence
  obtain rfl := Option.some.inj hsome
  rw [reads_bind_iff] at hread
  obtain ⟨other, afterOther, hleOther, hother, hread⟩ := hread
  have hfreeConsequence := hfreeCondition.of_suffix hconsequence.suffix
  rcases reads_accept_iff.mp hother with ⟨word, rfl, hotherKind, rfl⟩ | ⟨rfl, rfl, _⟩
  · have hle : afterOther.length ≤ (opening :: afterOpening).length :=
      Nat.le_trans hleOther
        (Nat.le_trans hleConsequence (Nat.le_trans hleCondition hleOpening))
    have hbracedOther := hbraced afterOther hle hfreeConsequence.tail
    rw [reads_andThen_iff (fun middle hnone => by
      obtain ⟨_, hfound, _⟩ := hbracedOther none middle hnone
      contradiction)] at hread
    obtain ⟨alternative, _, _, halternative, hread⟩ := hread
    obtain ⟨_, hsome, halternativeDerives⟩ := hbracedOther _ _ halternative
    obtain rfl := Option.some.inj hsome
    obtain ⟨rfl, rfl⟩ := reads_pure_iff.mp hread
    exact .alternative hword hopeningKind hconditionDerives hclosing hconsequenceDerives hotherKind
      halternativeDerives
  · obtain ⟨rfl, rfl⟩ := reads_pure_iff.mp hread
    exact .conditional hword hopeningKind hconditionDerives hclosing hconsequenceDerives

theorem enclosedSound_of_expression {input : List Token}
    (hexpression : ExpressionSound endLine .lowest input) : EnclosedSound endLine input := by
  intro hfree found rest hread
  rw [enclosed, reads_bind_iff] at hread
  obtain ⟨inner, middle, _, hinner, hclosing⟩ := hread
  obtain ⟨mark, hmark, rfl⟩ := reads_map_iff.mp hclosing
  obtain ⟨closing, rfl, hkind, rfl⟩ := reads_expect_iff.mp hmark
  exact ⟨inner, closing, rfl, hkind, (hexpression hfree inner _ hinner).1⟩

theorem bracedSound_of_block {input : List Token}
    (hblock : ∀ mark (rest : List Token), rest.length ≤ input.length →
      BlockSound endLine mark rest) :
    BracedSound endLine input := by
  intro hfree found rest hread
  rw [braced, reads_andThen_iff not_reads_expect_none] at hread
  obtain ⟨mark, middle, hle, hmark, hread⟩ := hread
  obtain ⟨_, hsome, hkind, rfl⟩ := reads_expect_iff.mp hmark
  obtain rfl := Option.some.inj hsome
  obtain ⟨value, hvalue, rfl⟩ := reads_map_iff.mp hread
  exact ⟨value, rfl, hblock mark middle hle hfree.tail hkind value rest hvalue⟩

theorem blockSound_of_sequence {mark : Token} {input : List Token}
    (hsequence : SequenceSound endLine .block input) : BlockSound endLine mark input := by
  intro hfree hmark value rest hread
  rw [block, reads_bind_iff] at hread
  obtain ⟨statements, middle, _, hstatements, hread⟩ := hread
  obtain ⟨hderives, hends⟩ := hsequence hfree statements middle hstatements
  obtain ⟨_, hadvance, rfl⟩ := reads_map_iff.mp hread
  cases middle with
  | nil =>
      obtain rfl : rest = [] := List.suffix_nil.mp hadvance.suffix
      exact .endingBlock hmark hderives
  | cons closing tail =>
      obtain rfl : tail = rest := hadvance.rest_eq
      have hfreeClosing : closing.kind ≠ .eof :=
        hfree.of_suffix hstatements.suffix closing List.mem_cons_self
      have hclosing : closing.kind = .rbrace := by
        simpa [Scope.endsAt, hfreeClosing] using front_cons_iff.mp hends
      exact .closedBlock hmark hderives hclosing

theorem sequenceSound_stop {scope : Scope} {input : List Token} (hends : Ends scope input) :
    SequenceSound endLine scope input := by
  intro _ values rest hread
  rw [sequence_of_ends hends, reads_pure_iff] at hread
  obtain ⟨rfl, rfl⟩ := hread
  exact ⟨.nil, hends⟩

theorem sequenceSound_cons {scope : Scope} {token : Token} {input : List Token}
    (hends : ¬ scope.endsAt token.kind = true)
    (hstatement : StatementSound endLine token input)
    (hsequence : ∀ rest : List Token, rest.length ≤ input.length →
      SequenceSound endLine scope rest) :
    SequenceSound endLine scope (token :: input) := by
  intro hfree values rest hread
  rw [sequence, if_neg hends, reads_behind_iff, reads_bind_iff] at hread
  obtain ⟨found, middle, hle, hfound, hread⟩ := hread
  obtain ⟨others, hothers, rfl⟩ := reads_map_iff.mp hread
  obtain ⟨first, rfl, hfirst⟩ := hstatement hfree.tail found middle hfound
  obtain ⟨hderives, hstops⟩ :=
    hsequence middle hle (hfree.tail.of_suffix hfound.suffix) others rest hothers
  exact ⟨.cons hfirst hderives, hstops⟩

theorem exists_of_reads_binding {token : Token} {input : List Token} {whole : Prop}
    {found : Option Stmt} {rest : List Token} (hword : token.kind = .letWord)
    (hread : (statement endLine token input).Reads whole found rest) :
    ∃ name sign afterSign, input = name :: sign :: afterSign ∧ name.kind = .ident ∧
      sign.kind = .assign ∧ found = some (.binding token ⟨name, name.literal⟩ .missing) ∧
      (skipStatement afterSign).Reads whole () rest := by
  rw [statement, hword] at hread
  simp only at hread
  rw [binding, reads_andThen_iff not_reads_expect_none] at hread
  obtain ⟨name, afterName, _, hname, hread⟩ := hread
  obtain ⟨_, hsome, hnameKind, rfl⟩ := reads_expect_iff.mp hname
  obtain rfl := Option.some.inj hsome
  rw [reads_andThen_iff not_reads_expect_none] at hread
  obtain ⟨sign, afterSign, _, hsign, hread⟩ := hread
  obtain ⟨_, hsome, hsignKind, rfl⟩ := reads_expect_iff.mp hsign
  obtain rfl := Option.some.inj hsome
  obtain ⟨_, hskip, rfl⟩ := reads_map_iff.mp hread
  exact ⟨name, sign, afterSign, rfl, hnameKind, hsignKind, rfl, hskip⟩

theorem statementSound_binding {token : Token} {input : List Token}
    (hword : token.kind = .letWord) : StatementSound endLine token input := by
  intro hfree found rest hread
  obtain ⟨name, sign, afterSign, rfl, hname, hsign, rfl, hskip⟩ :=
    exists_of_reads_binding hword hread
  exact ⟨_, rfl, .binding hword hname hsign (skips_of_reads hfree.tail.tail hskip)⟩

theorem statementSound_result {token : Token} {input : List Token}
    (hword : token.kind = .returnWord) : StatementSound endLine token input := by
  intro hfree found rest hread
  rw [statement, hword] at hread
  obtain ⟨_, hskip, rfl⟩ := reads_map_iff.mp hread
  exact ⟨_, rfl, .result hword (skips_of_reads hfree hskip)⟩

theorem statement_eq_expression {token : Token} {input : List Token}
    (hlet : token.kind ≠ .letWord) (hreturn : token.kind ≠ .returnWord) :
    statement endLine token input =
      (expressionFrom endLine .lowest token input).bind fun value rest _ =>
        (accept .semicolon rest).map fun _ => some (.expression token value) := by
  rw [statement]
  split
  · contradiction
  · contradiction
  · rfl

theorem statementSound_expression {token : Token} {input : List Token}
    (hlet : token.kind ≠ .letWord) (hreturn : token.kind ≠ .returnWord)
    (hexpression : ExpressionFromSound endLine .lowest token input) :
    StatementSound endLine token input := by
  intro hfree found rest hread
  rw [statement_eq_expression hlet hreturn, reads_bind_iff] at hread
  obtain ⟨value, middle, _, hvalue, hread⟩ := hread
  obtain ⟨mark, hmark, rfl⟩ := reads_map_iff.mp hread
  obtain ⟨hderives, hstops⟩ := hexpression hfree value middle hvalue
  refine ⟨_, rfl, ?_⟩
  rcases reads_accept_iff.mp hmark with ⟨semicolon, _, hkind, rfl⟩ | ⟨_, rfl, _⟩
  · exact .closedExpression hderives hkind
  · refine .openExpression hderives (hstops.imp ?_)
    intro next hnext hminus
    rw [hminus] at hnext
    exact hnext (by decide)

def soundMotive (endLine : Nat) : Motive where
  expression := ExpressionSound endLine
  expressionFrom := ExpressionFromSound endLine
  operand := OperandSound endLine
  enclosed := EnclosedSound endLine
  braced := BracedSound endLine
  chain := ChainSound endLine
  block := BlockSound endLine
  statement := StatementSound endLine
  sequence := SequenceSound endLine

theorem sound_cases (endLine : Nat) : (soundMotive endLine).Cases where
  expression_nil := expressionSound_nil _
  expression_cons := expressionSound_cons
  expressionFrom_none := expressionFromSound_none
  expressionFrom_some := expressionFromSound_some
  operand_name := operandSound_name _ _
  operand_integer := operandSound_integer _ _
  operand_boolean := operandSound_boolean _ _
  operand_unary := operandSound_unary
  operand_group := operandSound_group
  operand_conditional := operandSound_conditional
  enclosed_of_expression := enclosedSound_of_expression
  braced_of_block := bracedSound_of_block
  chain_stop := chainSound_stop
  chain_operator := chainSound_operator
  block_of_sequence := blockSound_of_sequence
  statement_binding := statementSound_binding
  statement_result := statementSound_result
  statement_expression := statementSound_expression
  sequence_stop := sequenceSound_stop
  sequence_cons := sequenceSound_cons

theorem sequenceSound (endLine : Nat) (scope : Scope) (input : List Token) :
    SequenceSound endLine scope input :=
  (sound_cases endLine).holds.sequence scope input

end Parser

end Scriptlet
