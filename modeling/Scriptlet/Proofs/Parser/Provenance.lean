import Scriptlet.Proofs.Grammar.Completeness
import Scriptlet.Tree.Node

/-!
# Trees hold the tokens they were read from

Whatever is wrong with the tokens, the tree has no token that was not read, no token twice,
and no two tokens in another order than in the list; and every node says the same as its
token.  Faults throw subtrees away, but they never put a token back.  So the value of a
step is drawn from the tokens that it has read, and the value of a chain from those and the
tokens of its left operand together.
-/

namespace Scriptlet

mutual

/-- The tokens of an expression in the order of the text. -/
def Expr.tokens : Expr → List Token
  | .missing => []
  | .name identifier => [identifier.token]
  | .integer token _ => [token]
  | .boolean token _ => [token]
  | .unary token _ operand => token :: operand.tokens
  | .binary token left _ right => left.tokens ++ token :: right.tokens
  | .conditional token condition consequence none =>
    token :: (condition.tokens ++ consequence.tokens)
  | .conditional token condition consequence (some alternative) =>
    token :: (condition.tokens ++ consequence.tokens ++ alternative.tokens)

def Block.tokens : Block → List Token
  | .mk token statements => token :: Stmt.tokensOfAll statements

/-- The tokens of a statement.  The token of an expression statement is the first one
that was read for it, and may be one of the expression. -/
def Stmt.tokens : Stmt → List Token
  | .binding token name value => token :: name.token :: value.tokens
  | .result token value => token :: value.tokens
  | .expression _ value => value.tokens

def Stmt.tokensOfAll : List Stmt → List Token
  | [] => []
  | statement :: statements => statement.tokens ++ Stmt.tokensOfAll statements

end

attribute [simp] Expr.tokens Block.tokens Stmt.tokens Stmt.tokensOfAll

def Program.tokens (program : Program) : List Token :=
  Stmt.tokensOfAll program.statements

def Identifier.Agrees (identifier : Identifier) : Prop :=
  identifier.token.kind = .ident ∧ identifier.text = identifier.token.literal

/-- The node says what its token says.  An expression statement begins with one of the
tokens of the source, which is not that of another statement and no end marker. -/
@[simp] def Node.Agrees (source : List Token) : Node → Prop
  | .program _ => True
  | .statement (.binding word _ value) => word.kind = .letWord ∧ value = .missing
  | .statement (.result word value) => word.kind = .returnWord ∧ value = .missing
  | .statement (.expression first _) =>
    first ∈ source ∧ first.kind ∉ [.letWord, .returnWord, .eof]
  | .bound name => name.Agrees
  | .block part => part.token.kind = .lbrace
  | .expression .missing => True
  | .expression (.name identifier) => identifier.Agrees
  | .expression (.integer token value) =>
    token.kind = .int ∧ Numeral.value? token.literal = some value
  | .expression (.boolean token value) =>
    token.kind ∈ [.trueWord, .falseWord] ∧ (value = true ↔ token.kind = .trueWord)
  | .expression (.unary token operator _) =>
    token.kind ∈ [.bang, .minus] ∧ operator = token.literal
  | .expression (.binary token _ operator _) =>
    token.kind ∈ [.equal, .notEqual, .less, .greater, .plus, .minus, .star, .slash] ∧
      operator = token.literal
  | .expression (.conditional token _ _ _) => token.kind = .ifWord

theorem Node.Agrees.mono {node : Node} {source larger : List Token}
    (hagrees : node.Agrees source) (hsubset : source ⊆ larger) : node.Agrees larger := by
  match node with
  | .statement (.expression first _) => exact ⟨hsubset hagrees.1, hagrees.2⟩
  | .statement (.binding _ _ _) => exact hagrees
  | .statement (.result _ _) => exact hagrees
  | .program _ => trivial
  | .bound _ => exact hagrees
  | .block _ => exact hagrees
  | .expression part => cases part <;> exact hagrees

/-! ## Values drawn from tokens -/

/-- The tokens stand in the source in this order, and the nodes agree with theirs. -/
structure Drawn (source tokens : List Token) (nodes : List Node) : Prop where
  ordered : tokens.Sublist source
  agree : ∀ node ∈ nodes, node.Agrees source

def Expr.DrawnFrom (source : List Token) (value : Expr) : Prop :=
  Drawn source value.tokens value.nodes

def Block.DrawnFrom (source : List Token) (block : Block) : Prop :=
  Drawn source block.tokens block.nodes

def Stmt.AllDrawnFrom (source : List Token) (statements : List Stmt) : Prop :=
  Drawn source (tokensOfAll statements) (nodesOfAll statements)

namespace Drawn

variable {source other tokens more : List Token} {nodes others : List Node}

theorem nil : Drawn source [] [] :=
  ⟨List.nil_sublist source, List.forall_mem_nil _⟩

theorem mono (hdrawn : Drawn source tokens nodes) (hsublist : source.Sublist other) :
    Drawn other tokens nodes :=
  ⟨hdrawn.ordered.trans hsublist, fun node hmem => (hdrawn.agree node hmem).mono hsublist.subset⟩

theorem append_left (hdrawn : Drawn source tokens nodes) (before : List Token) :
    Drawn (before ++ source) tokens nodes :=
  hdrawn.mono (List.sublist_append_right before source)

theorem append_right (hdrawn : Drawn source tokens nodes) (after : List Token) :
    Drawn (source ++ after) tokens nodes :=
  hdrawn.mono (List.sublist_append_left source after)

theorem append (hfirst : Drawn source tokens nodes) (hsecond : Drawn other more others) :
    Drawn (source ++ other) (tokens ++ more) (nodes ++ others) := by
  refine ⟨hfirst.ordered.append hsecond.ordered, List.forall_mem_append.mpr ⟨?_, ?_⟩⟩
  · exact (hfirst.append_right other).agree
  · exact (hsecond.append_left source).agree

theorem node {token : Token} {node : Node} (hdrawn : Drawn source tokens nodes)
    (hagrees : node.Agrees (token :: source)) :
    Drawn (token :: source) (token :: tokens) (node :: nodes) := by
  refine ⟨hdrawn.ordered.cons_cons token, List.forall_mem_cons.mpr ⟨hagrees, ?_⟩⟩
  exact (hdrawn.append_left [token]).agree

end Drawn

theorem Expr.drawnFrom_missing (source : List Token) : Expr.missing.DrawnFrom source := by
  rw [DrawnFrom, tokens, nodes]
  exact .nil

theorem Expr.drawnFrom_leaf {value : Expr} {token : Token} (htokens : value.tokens = [token])
    (hnodes : value.nodes = [.expression value])
    (hagrees : (Node.expression value).Agrees [token]) (rest : List Token) :
    value.DrawnFrom (token :: rest) := by
  rw [DrawnFrom, htokens, hnodes]
  exact (Drawn.nil.node hagrees).append_right rest

theorem Expr.DrawnFrom.unary {source : List Token} {token : Token} {operand : Expr}
    (hoperand : operand.DrawnFrom source) (hkind : token.kind ∈ [.bang, .minus]) :
    (Expr.unary token token.literal operand).DrawnFrom (token :: source) := by
  rw [DrawnFrom, tokens, nodes]
  exact hoperand.node ⟨hkind, rfl⟩

theorem Expr.DrawnFrom.binary {source other : List Token} {token : Token} {left right : Expr}
    (hleft : left.DrawnFrom source) (hright : right.DrawnFrom other)
    (hkind : token.kind.precedence ≠ .lowest) :
    (Expr.binary token left token.literal right).DrawnFrom (source ++ token :: other) := by
  have hagrees : (Node.expression (.binary token left token.literal right)).Agrees [] := by
    refine ⟨?_, rfl⟩
    revert hkind
    cases token.kind <;> simp [Kind.precedence]
  have hoperands := hleft.append (hright.append_left [token])
  rw [DrawnFrom, tokens, nodes]
  refine ⟨hleft.ordered.append (hright.ordered.cons_cons token), List.forall_mem_cons.mpr ⟨?_, ?_⟩⟩
  · exact hagrees.mono (List.nil_subset _)
  · exact hoperands.agree

theorem Expr.DrawnFrom.conditional {source other : List Token} {token : Token} {condition : Expr}
    {consequence : Block} (hcondition : condition.DrawnFrom source)
    (hconsequence : consequence.DrawnFrom other) (hkind : token.kind = .ifWord) :
    (Expr.conditional token condition consequence none).DrawnFrom (token :: (source ++ other)) := by
  rw [DrawnFrom, tokens, nodes]
  exact (hcondition.append hconsequence).node hkind

theorem Expr.DrawnFrom.alternative {source other last : List Token} {token : Token}
    {condition : Expr} {consequence alternative : Block} (hcondition : condition.DrawnFrom source)
    (hconsequence : consequence.DrawnFrom other) (halternative : alternative.DrawnFrom last)
    (hkind : token.kind = .ifWord) :
    (Expr.conditional token condition consequence (some alternative)).DrawnFrom
      (token :: (source ++ other ++ last)) := by
  rw [DrawnFrom, tokens, nodes]
  exact ((hcondition.append hconsequence).append halternative).node hkind

theorem Stmt.tokensOfAll_append (first second : List Stmt) :
    tokensOfAll (first ++ second) = tokensOfAll first ++ tokensOfAll second := by
  induction first with
  | nil => simp
  | cons statement statements ih => simp [ih]

theorem Stmt.nodesOfAll_append (first second : List Stmt) :
    nodesOfAll (first ++ second) = nodesOfAll first ++ nodesOfAll second := by
  induction first with
  | nil => simp
  | cons statement statements ih => simp [ih]

theorem Stmt.allDrawnFrom_nil (source : List Token) : AllDrawnFrom source [] := by
  rw [AllDrawnFrom, tokensOfAll, nodesOfAll]
  exact .nil

theorem Stmt.allDrawnFrom_binding {word name : Token} (hword : word.kind = .letWord)
    (hname : name.kind = .ident) (rest : List Token) :
    AllDrawnFrom (word :: name :: rest) [.binding word ⟨name, name.literal⟩ .missing] := by
  have hagrees : (Node.statement (.binding word ⟨name, name.literal⟩ .missing)).Agrees
      (word :: name :: rest) := ⟨hword, rfl⟩
  have hbound : (Node.bound ⟨name, name.literal⟩).Agrees (name :: rest) := ⟨hname, rfl⟩
  simpa [AllDrawnFrom] using (Drawn.nil.node hbound).node hagrees

theorem Stmt.allDrawnFrom_result {word : Token} (hword : word.kind = .returnWord)
    (rest : List Token) : AllDrawnFrom (word :: rest) [.result word .missing] := by
  have hagrees : (Node.statement (.result word .missing)).Agrees (word :: rest) := ⟨hword, rfl⟩
  simpa [AllDrawnFrom] using Drawn.nil.node hagrees

theorem Stmt.allDrawnFrom_expression {first : Token} {value : Expr} {rest : List Token}
    (hvalue : value.DrawnFrom (first :: rest)) (hkind : first.kind ∉ [.letWord, .returnWord, .eof]) :
    AllDrawnFrom (first :: rest) [.expression first value] := by
  have hagrees : (Node.statement (.expression first value)).Agrees (first :: rest) :=
    ⟨List.mem_cons_self, hkind⟩
  have hnodes := List.forall_mem_cons.mpr ⟨hagrees, hvalue.agree⟩
  simpa [AllDrawnFrom] using Drawn.mk hvalue.ordered hnodes

theorem Stmt.AllDrawnFrom.append {source other : List Token} {first second : List Stmt}
    (hfirst : AllDrawnFrom source first) (hsecond : AllDrawnFrom other second) :
    AllDrawnFrom (source ++ other) (first ++ second) := by
  rw [AllDrawnFrom, tokensOfAll_append, nodesOfAll_append]
  exact Drawn.append hfirst hsecond

namespace Step

variable {α β : Type} {input : List Token}

/-- The tokens that the step reads and its value are in this relation. -/
def Yields (relation : List Token → α → Prop) (step : Step α input) : Prop :=
  ∃ consumed, input = consumed ++ step.rest ∧ relation consumed step.value

variable {relation : List Token → α → Prop} {result : List Token → β → Prop}

theorem yields_pure {value : α} (hvalue : relation [] value) :
    (pure value : Step α input).Yields relation :=
  ⟨[], rfl, hvalue⟩

theorem yields_fail {value : α} {fault : Fault} (hvalue : relation [] value) :
    (fail value fault : Step α input).Yields relation :=
  ⟨[], rfl, hvalue⟩

theorem yields_of_forall {step : Step α input} (hvalue : ∀ consumed value, relation consumed value) :
    step.Yields relation := by
  obtain ⟨consumed, hinput⟩ := step.rest_suffix
  exact ⟨consumed, hinput.symm, hvalue consumed step.value⟩

theorem Yields.imp {weaker : List Token → α → Prop} {step : Step α input}
    (hstep : step.Yields relation)
    (himp : ∀ consumed value, relation consumed value → weaker consumed value) :
    step.Yields weaker := by
  obtain ⟨consumed, hinput, hvalue⟩ := hstep
  exact ⟨consumed, hinput, himp consumed step.value hvalue⟩

theorem Yields.behind {token : Token} {step : Step α input}
    (hstep : step.Yields fun consumed => relation (token :: consumed)) :
    (step.behind token).Yields relation := by
  obtain ⟨consumed, hinput, hvalue⟩ := hstep
  exact ⟨token :: consumed, congrArg (token :: ·) hinput, hvalue⟩

theorem Yields.map {f : α → β} {step : Step α input}
    (hstep : step.Yields fun consumed value => result consumed (f value)) :
    (step.map f).Yields result :=
  hstep

theorem Yields.bind {first : Step α input}
    {next : α → (rest : List Token) → rest.length ≤ input.length → Step β rest}
    (hfirst : first.Yields relation)
    (hnext : ∀ consumed value rest hle, relation consumed value →
      (next value rest hle).Yields fun more => result (consumed ++ more)) :
    (first.bind next).Yields result := by
  obtain ⟨consumed, hinput, hvalue⟩ := hfirst
  obtain ⟨more, hrest, hresult⟩ := hnext consumed first.value first.rest
    first.rest_suffix.length_le hvalue
  refine ⟨consumed ++ more, ?_, hresult⟩
  rw [List.append_assoc]
  exact hinput.trans (congrArg (consumed ++ ·) hrest)

theorem Yields.andThen {first : Step (Option α) input} {otherwise : β}
    {next : α → (rest : List Token) → rest.length ≤ input.length → Step β rest}
    (hfirst : first.Yields fun consumed found => ∀ value ∈ found, relation consumed value)
    (hotherwise : ∀ consumed, result consumed otherwise)
    (hnext : ∀ consumed value rest hle, relation consumed value →
      (next value rest hle).Yields fun more => result (consumed ++ more)) :
    (first.andThen otherwise next).Yields result := by
  apply hfirst.bind
  intro consumed found rest hle hfound
  cases found with
  | none => exact yields_pure (hotherwise _)
  | some value => exact hnext consumed value rest hle (hfound value rfl)

theorem yields_expect (endLine : Nat) (kind : Kind) (input : List Token) :
    (expect endLine kind input).Yields fun consumed found =>
      ∀ token ∈ found, consumed = [token] ∧ token.kind = kind := by
  cases input with
  | nil => exact yields_fail (by simp)
  | cons token rest =>
      by_cases hkind : token.kind = kind
      · rw [expect, if_pos hkind]
        exact Yields.behind (yields_pure (by simpa using hkind))
      · rw [expect, if_neg hkind]
        exact yields_fail (by simp)

end Step

namespace Parser

open Step

/-! ## The functions of the parser -/

section Functions

variable (endLine : Nat)

def ExpressionDraws (floor : Precedence) (input : List Token) : Prop :=
  (expression endLine floor input).Yields Expr.DrawnFrom

def ExpressionFromDraws (floor : Precedence) (token : Token) (input : List Token) : Prop :=
  (expressionFrom endLine floor token input).Yields fun consumed =>
    Expr.DrawnFrom (token :: consumed)

/-- The left operand was drawn from tokens that stand before the chain. -/
def ChainDraws (floor : Precedence) (left : Expr) (input : List Token) : Prop :=
  ∀ source, left.DrawnFrom source →
    (chain endLine floor left input).Yields fun consumed => Expr.DrawnFrom (source ++ consumed)

def OperandDraws (opening : Opening) (token : Token) (input : List Token) : Prop :=
  token.kind ∈ opening.kinds →
    (operand endLine opening token input).Yields fun consumed =>
      Expr.DrawnFrom (token :: consumed)

def BracedDraws (input : List Token) : Prop :=
  (braced endLine input).Yields fun consumed found =>
    ∀ block ∈ found, block.DrawnFrom consumed

def BlockDraws (mark : Token) (input : List Token) : Prop :=
  mark.kind = .lbrace →
    (block endLine mark input).Yields fun consumed => Block.DrawnFrom (mark :: consumed)

def SequenceDraws (scope : Scope) (input : List Token) : Prop :=
  (sequence endLine scope input).Yields Stmt.AllDrawnFrom

def StatementDraws (token : Token) (input : List Token) : Prop :=
  token.kind ≠ .eof →
    (statement endLine token input).Yields fun consumed found =>
      Stmt.AllDrawnFrom (token :: consumed) found.toList

def EnclosedDraws (input : List Token) : Prop :=
  (enclosed endLine input).Yields fun consumed found =>
    ∀ inner ∈ found, inner.DrawnFrom consumed

end Functions

variable {endLine : Nat}

theorem expressionDraws_nil (floor : Precedence) : ExpressionDraws endLine floor [] := by
  rw [ExpressionDraws, expression]
  exact ⟨[], rfl, Expr.drawnFrom_missing []⟩

theorem expressionDraws_cons {floor : Precedence} {token : Token} {input : List Token}
    (hfrom : ExpressionFromDraws endLine floor token input) :
    ExpressionDraws endLine floor (token :: input) := by
  rw [ExpressionDraws, expression]
  exact hfrom.behind

theorem expressionFromDraws_none {floor : Precedence} {token : Token} {input : List Token}
    (hopening : token.kind.opening? = none) : ExpressionFromDraws endLine floor token input := by
  rw [ExpressionFromDraws, expressionFrom, hopening]
  exact yields_fail (Expr.drawnFrom_missing _)

theorem expressionFromDraws_some {floor : Precedence} {token : Token} {input : List Token}
    {opening : Opening} (hopening : token.kind.opening? = some opening)
    (hoperand : OperandDraws endLine opening token input)
    (hchain : ∀ left (rest : List Token), rest.length ≤ input.length →
      ChainDraws endLine floor left rest) :
    ExpressionFromDraws endLine floor token input := by
  rw [ExpressionFromDraws, expressionFrom, hopening]
  apply (hoperand (Kind.opening?_eq_some_iff.mp hopening)).bind
  intro consumed left rest hle hleft
  exact hchain left rest hle _ hleft

theorem chainDraws_stop {floor : Precedence} {left : Expr} {input : List Token}
    (hstops : Stops floor input) : ChainDraws endLine floor left input := by
  intro source hleft
  rw [chain_of_stops hstops]
  exact yields_pure (hleft.append_right [])

theorem chainDraws_operator {floor : Precedence} {left : Expr} {token : Token}
    {input : List Token} (hfloor : floor < token.kind.precedence)
    (hright : ExpressionDraws endLine token.kind.precedence input)
    (hchain : ∀ right (rest : List Token), rest.length ≤ input.length →
      ChainDraws endLine floor (.binary token left token.literal right) rest) :
    ChainDraws endLine floor left (token :: input) := by
  intro source hleft
  have hkind : token.kind.precedence ≠ .lowest := by
    intro hlowest
    rw [hlowest] at hfloor
    exact Nat.not_lt_zero _ hfloor
  rw [chain, if_pos hfloor]
  apply Yields.behind
  apply hright.bind
  intro consumed right rest hle hconsumed
  have hbinary := hchain right rest hle _ (hleft.binary hconsumed hkind)
  simpa using hbinary

theorem operandDraws_name (token : Token) (input : List Token) :
    OperandDraws endLine .name token input := by
  intro hopens
  rw [operand]
  apply yields_pure
  refine Expr.drawnFrom_leaf (by simp) (by simp) ?_ []
  exact ⟨List.mem_singleton.mp hopens, rfl⟩

theorem operandDraws_integer (token : Token) (input : List Token) :
    OperandDraws endLine .integer token input := by
  intro hopens
  rw [operand, integer]
  cases hvalue : Numeral.value? token.literal with
  | none => exact yields_fail (Expr.drawnFrom_missing _)
  | some value =>
      apply yields_pure
      refine Expr.drawnFrom_leaf (by simp) (by simp) ?_ []
      exact ⟨List.mem_singleton.mp hopens, hvalue⟩

theorem operandDraws_boolean (token : Token) (input : List Token) :
    OperandDraws endLine .boolean token input := by
  intro hopens
  rw [operand]
  apply yields_pure
  refine Expr.drawnFrom_leaf (by simp) (by simp) ?_ []
  exact ⟨hopens, decide_eq_true_iff⟩

theorem operandDraws_unary {token : Token} {input : List Token}
    (hoperand : ExpressionDraws endLine .unary input) :
    OperandDraws endLine .unary token input := by
  intro hopens
  rw [operand_unary]
  apply Yields.map
  apply hoperand.imp
  intro consumed operand hdrawn
  exact hdrawn.unary hopens

theorem operandDraws_group {token : Token} {input : List Token}
    (hinner : EnclosedDraws endLine input) : OperandDraws endLine .group token input := by
  intro _
  rw [operand_group]
  apply Yields.map
  apply hinner.imp
  intro consumed inner hdrawn
  cases inner with
  | none => exact Expr.drawnFrom_missing _
  | some inner => exact (hdrawn inner rfl).append_left [token]

theorem operandDraws_conditional {token : Token} {input : List Token}
    (henclosed : ∀ rest : List Token, rest.length ≤ input.length → EnclosedDraws endLine rest)
    (hbraced : ∀ rest : List Token, rest.length ≤ input.length → BracedDraws endLine rest) :
    OperandDraws endLine .conditional token input := by
  intro hopens
  have hkind : token.kind = .ifWord := List.mem_singleton.mp hopens
  have hmissing : ∀ source, Expr.missing.DrawnFrom source := Expr.drawnFrom_missing
  rw [operand_conditional]
  apply (yields_expect endLine .lparen input).andThen fun _ => hmissing _
  intro opened _ afterOpening hleOpening _
  apply (henclosed afterOpening hleOpening).andThen fun _ => hmissing _
  intro tested condition afterCondition hleCondition hcondition
  apply (hbraced afterCondition (by omega)).andThen fun _ => hmissing _
  intro taken consequence afterConsequence hleConsequence hconsequence
  have hword : (accept .elseWord afterConsequence).Yields fun _ _ => True :=
    yields_of_forall fun _ _ => trivial
  apply hword.bind
  intro word found afterWord hleWord _
  have htest : condition.DrawnFrom (opened ++ tested) := hcondition.append_left opened
  have htaken : consequence.DrawnFrom (taken ++ word) := hconsequence.append_right word
  cases found with
  | none =>
      apply yields_pure
      simpa using htest.conditional htaken hkind
  | some _ =>
      apply (hbraced afterWord (by omega)).andThen fun _ => hmissing _
      intro last alternative rest hle halternative
      apply yields_pure
      simpa using htest.alternative htaken halternative hkind

theorem enclosedDraws_of_expression {input : List Token}
    (hinner : ExpressionDraws endLine .lowest input) : EnclosedDraws endLine input := by
  rw [EnclosedDraws, enclosed]
  apply hinner.bind
  intro consumed inner rest hle hdrawn
  apply Yields.map
  apply yields_of_forall
  intro closed closing value hvalue
  cases closing with
  | none => contradiction
  | some mark =>
      cases hvalue
      exact hdrawn.append_right closed

theorem bracedDraws_of_block {input : List Token}
    (hblock : ∀ mark (rest : List Token), rest.length ≤ input.length →
      BlockDraws endLine mark rest) :
    BracedDraws endLine input := by
  rw [BracedDraws, braced]
  apply (yields_expect endLine .lbrace input).andThen (by simp)
  rintro consumed mark rest hle ⟨rfl, hkind⟩
  apply Yields.map
  apply (hblock mark rest hle hkind).imp
  intro more block hdrawn found hfound
  cases hfound
  exact hdrawn

theorem blockDraws_of_sequence {mark : Token} {input : List Token}
    (hsequence : SequenceDraws endLine .block input) : BlockDraws endLine mark input := by
  intro hkind
  rw [block]
  apply hsequence.bind
  intro consumed statements rest hle hdrawn
  apply Yields.map
  apply yields_of_forall
  intro closing _
  rw [Block.DrawnFrom, Block.tokens, Block.nodes]
  exact (hdrawn.append_right closing).node hkind

theorem statementDraws_binding {token : Token} {input : List Token}
    (hword : token.kind = .letWord) : StatementDraws endLine token input := by
  intro _
  rw [statement, hword]
  refine (yields_expect endLine .ident input).andThen (fun _ => Stmt.allDrawnFrom_nil _) ?_
  rintro consumed name afterName hleName ⟨rfl, hname⟩
  refine (yields_expect endLine .assign afterName).andThen (fun _ => Stmt.allDrawnFrom_nil _) ?_
  intro sign _ afterSign hleSign _
  apply Yields.map
  apply yields_of_forall
  intro skipped _
  exact Stmt.allDrawnFrom_binding hword hname (sign ++ skipped)

theorem statementDraws_result {token : Token} {input : List Token}
    (hword : token.kind = .returnWord) : StatementDraws endLine token input := by
  intro _
  rw [statement, hword]
  apply Yields.map
  apply yields_of_forall
  intro skipped _
  exact Stmt.allDrawnFrom_result hword skipped

theorem statementDraws_expression {token : Token} {input : List Token}
    (hlet : token.kind ≠ .letWord) (hreturn : token.kind ≠ .returnWord)
    (hfrom : ExpressionFromDraws endLine .lowest token input) :
    StatementDraws endLine token input := by
  intro hend
  rw [statement_eq_expression hlet hreturn]
  apply hfrom.bind
  intro consumed value rest hle hdrawn
  apply Yields.map
  apply yields_of_forall
  intro mark _
  exact Stmt.allDrawnFrom_expression (hdrawn.append_right mark) (by simp [hlet, hreturn, hend])

theorem sequenceDraws_stop {scope : Scope} {input : List Token} (hends : Ends scope input) :
    SequenceDraws endLine scope input := by
  rw [SequenceDraws, sequence_of_ends hends]
  exact yields_pure (Stmt.allDrawnFrom_nil [])

theorem sequenceDraws_cons {scope : Scope} {token : Token} {input : List Token}
    (hends : ¬ scope.endsAt token.kind = true)
    (hstatement : StatementDraws endLine token input)
    (hsequence : ∀ rest : List Token, rest.length ≤ input.length →
      SequenceDraws endLine scope rest) :
    SequenceDraws endLine scope (token :: input) := by
  have hend : token.kind ≠ .eof := by
    intro hend
    cases scope <;> simp [Scope.endsAt, hend] at hends
  rw [SequenceDraws, sequence, if_neg hends]
  apply Yields.behind
  apply (hstatement hend).bind
  intro consumed first rest hle hfirst
  apply Yields.map
  apply (hsequence rest hle).imp
  intro more others hothers
  exact hfirst.append hothers

def drawsMotive (endLine : Nat) : Motive where
  expression := ExpressionDraws endLine
  expressionFrom := ExpressionFromDraws endLine
  operand := OperandDraws endLine
  enclosed := EnclosedDraws endLine
  braced := BracedDraws endLine
  chain := ChainDraws endLine
  block := BlockDraws endLine
  statement := StatementDraws endLine
  sequence := SequenceDraws endLine

theorem draws_cases (endLine : Nat) : (drawsMotive endLine).Cases where
  expression_nil := expressionDraws_nil _
  expression_cons := expressionDraws_cons
  expressionFrom_none := expressionFromDraws_none
  expressionFrom_some := expressionFromDraws_some
  operand_name := operandDraws_name _ _
  operand_integer := operandDraws_integer _ _
  operand_boolean := operandDraws_boolean _ _
  operand_unary := operandDraws_unary
  operand_group := operandDraws_group
  operand_conditional := operandDraws_conditional
  enclosed_of_expression := enclosedDraws_of_expression
  braced_of_block := bracedDraws_of_block
  chain_stop := chainDraws_stop
  chain_operator := chainDraws_operator
  block_of_sequence := blockDraws_of_sequence
  statement_binding := statementDraws_binding
  statement_result := statementDraws_result
  statement_expression := statementDraws_expression
  sequence_stop := sequenceDraws_stop
  sequence_cons := sequenceDraws_cons

theorem sequenceDraws (endLine : Nat) (scope : Scope) (input : List Token) :
    SequenceDraws endLine scope input :=
  (draws_cases endLine).holds.sequence scope input

/-- The tokens of the tree, read in order, are among the tokens taken and stand there in the
same order, and every node says what its token says. -/
theorem tree_drawn_from_pulled (tokens : List Token) (endLine : Nat) :
    let read := (start tokens endLine).program
    read.1.tokens.Sublist (tokens.take read.2.pulled) ∧
      ∀ node ∈ read.1.nodes, node.Agrees (tokens.take read.2.pulled) := by
  intro read
  obtain ⟨consumed, htokens, hdrawn⟩ := sequenceDraws endLine .program tokens
  have hpulled : read.2.pulled = 2 + (sequence endLine .program tokens).taken := rfl
  have hsublist : consumed.Sublist (tokens.take read.2.pulled) := by
    have hfront : consumed <+: tokens := ⟨_, htokens.symm⟩
    have hlength : consumed.length ≤ read.2.pulled := by
      have hsum := congrArg List.length htokens
      simp only [List.length_append] at hsum
      rw [hpulled, taken]
      omega
    rw [List.prefix_iff_eq_take.mp hfront]
    exact (List.take_prefix_take_left hlength).sublist
  have hall := hdrawn.mono hsublist
  exact ⟨hall.ordered, List.forall_mem_cons.mpr ⟨trivial, hall.agree⟩⟩

end Parser

end Scriptlet
