import Scriptlet.Proofs.Grammar.Completeness
import Scriptlet.Tree.Node

/-!
# Every hole has a fault of its own

Every hole of a tree is charged to one recorded fault, and no fault is charged twice.
Holes move while a tree is built: a chain takes over the holes of its left operand, and a
failed group or conditional throws away a subtree and leaves a single hole.  A step
therefore starts with a budget, the holes of what it is given, and may end with no more
holes than its budget and its own faults allow.
-/

namespace Scriptlet

/-- The expressions that a node asks for.  The values of bindings and results are
never read, so they are not asked for. -/
@[simp] def Node.slots : Node → List Expr
  | .statement (.expression _ value) => [value]
  | .expression (.unary _ _ operand) => [operand]
  | .expression (.binary _ left _ right) => [left, right]
  | .expression (.conditional _ condition _ _) => [condition]
  | _ => []

@[simp] def Expr.isMissing : Expr → Bool
  | .missing => true
  | _ => false

def holesOf (nodes : List Node) : Nat :=
  (nodes.flatMap Node.slots).countP Expr.isMissing

/-- The empty slots of a program, at every depth. -/
def Program.holes (program : Program) : Nat :=
  holesOf program.nodes

@[simp] theorem holesOf_nil : holesOf [] = 0 :=
  rfl

@[simp] theorem holesOf_cons (node : Node) (nodes : List Node) :
    holesOf (node :: nodes) = node.slots.countP Expr.isMissing + holesOf nodes := by
  simp [holesOf]

@[simp] theorem holesOf_append (first second : List Node) :
    holesOf (first ++ second) = holesOf first + holesOf second := by
  simp [holesOf]

theorem holesOf_eq_zero_iff {nodes : List Node} :
    holesOf nodes = 0 ↔ ∀ node ∈ nodes, ∀ slot ∈ node.slots, slot ≠ .missing := by
  have hmissing : ∀ slot : Expr, ¬ slot.isMissing = true ↔ slot ≠ .missing := by
    intro slot
    cases slot <;> simp
  simp only [holesOf, List.countP_eq_zero, List.mem_flatMap, hmissing]
  constructor
  · intro hslots node hnode slot hslot
    exact hslots slot ⟨node, hnode, hslot⟩
  · rintro hslots slot ⟨node, hnode, hslot⟩
    exact hslots node hnode slot hslot

/-- The holes that an expression brings into the slot it fills. -/
def Expr.holes (value : Expr) : Nat :=
  (if value.isMissing then 1 else 0) + holesOf value.nodes

def Block.holes (block : Block) : Nat :=
  holesOf block.nodes

def Stmt.holesOfAll (statements : List Stmt) : Nat :=
  holesOf (Stmt.nodesOfAll statements)

@[simp] theorem Expr.holes_missing : Expr.missing.holes = 1 := by
  simp [holes]

@[simp] theorem Expr.holes_name (identifier : Identifier) : (Expr.name identifier).holes = 0 := by
  simp [holes]

@[simp] theorem Expr.holes_integer (token : Token) (value : Int) :
    (Expr.integer token value).holes = 0 := by
  simp [holes]

@[simp] theorem Expr.holes_boolean (token : Token) (value : Bool) :
    (Expr.boolean token value).holes = 0 := by
  simp [holes]

@[simp] theorem Expr.holes_unary (token : Token) (operator : String) (operand : Expr) :
    (Expr.unary token operator operand).holes = operand.holes := by
  simp [holes, List.countP_cons]

@[simp] theorem Expr.holes_binary (token : Token) (left : Expr) (operator : String)
    (right : Expr) : (Expr.binary token left operator right).holes = left.holes + right.holes := by
  simp [holes, List.countP_cons]
  omega

@[simp] theorem Expr.holes_conditional (token : Token) (condition : Expr) (consequence : Block) :
    (Expr.conditional token condition consequence none).holes =
      condition.holes + consequence.holes := by
  simp [holes, Block.holes, List.countP_cons]
  omega

@[simp] theorem Expr.holes_alternative (token : Token) (condition : Expr)
    (consequence alternative : Block) :
    (Expr.conditional token condition consequence (some alternative)).holes =
      condition.holes + consequence.holes + alternative.holes := by
  simp [holes, Block.holes, List.countP_cons]
  omega

@[simp] theorem Stmt.holesOfAll_nil : Stmt.holesOfAll [] = 0 := by
  simp [holesOfAll]

@[simp] theorem Stmt.holesOfAll_append (first second : List Stmt) :
    Stmt.holesOfAll (first ++ second) = Stmt.holesOfAll first + Stmt.holesOfAll second := by
  induction first with
  | nil => simp
  | cons statement statements ih =>
      simp only [holesOfAll, List.cons_append, nodesOfAll, holesOf_append] at *
      omega

@[simp] theorem Stmt.holesOfAll_binding (token : Token) (name : Identifier) :
    Stmt.holesOfAll [.binding token name .missing] = 0 := by
  simp [holesOfAll]

@[simp] theorem Stmt.holesOfAll_result (token : Token) :
    Stmt.holesOfAll [.result token .missing] = 0 := by
  simp [holesOfAll]

@[simp] theorem Stmt.holesOfAll_expression (token : Token) (value : Expr) :
    Stmt.holesOfAll [.expression token value] = value.holes := by
  simp [holesOfAll, Expr.holes, List.countP_cons]

@[simp] theorem Block.holes_mk (token : Token) (statements : List Stmt) :
    (Block.mk token statements).holes = Stmt.holesOfAll statements := by
  simp [holes, Stmt.holesOfAll]

@[simp] theorem Program.holes_mk (statements : List Stmt) :
    (Program.mk statements).holes = Stmt.holesOfAll statements := by
  simp [holes, nodes, Stmt.holesOfAll]

/-! ## Steps that pay for their holes -/

namespace Step

variable {α β : Type} {input : List Token}

/-- The weight of the value is covered by the budget and the faults. -/
def Pays (weight : α → Nat) (budget : Nat) (step : Step α input) : Prop :=
  weight step.value ≤ budget + step.faults.length

/-- The weight of something that may not be there; its absence is as bad as a hole. -/
def orHole (weight : α → Nat) : Option α → Nat
  | some value => weight value
  | none => 1

variable {weight : α → Nat} {other : β → Nat} {budget : Nat}

theorem pays_pure {value : α} (hvalue : weight value ≤ budget) :
    (pure value : Step α input).Pays weight budget := by
  simpa [Pays, pure] using hvalue

theorem pays_fail {value : α} {fault : Fault} (hvalue : weight value ≤ budget + 1) :
    (fail value fault : Step α input).Pays weight budget := by
  simpa [Pays, fail] using hvalue

theorem Pays.behind {token : Token} {step : Step α input} (hstep : step.Pays weight budget) :
    (step.behind token).Pays weight budget :=
  hstep

theorem Pays.map {f : α → β} {step : Step α input} (hstep : step.Pays weight budget)
    (hweight : ∀ value, other (f value) ≤ weight value) : (step.map f).Pays other budget :=
  Nat.le_trans (hweight step.value) hstep

theorem Pays.bind {first : Step α input}
    {next : α → (rest : List Token) → rest.length ≤ input.length → Step β rest}
    (hfirst : first.Pays weight budget)
    (hnext : ∀ value rest hle, (next value rest hle).Pays other (weight value)) :
    (first.bind next).Pays other budget := by
  have hrest := hnext first.value first.rest first.rest_suffix.length_le
  unfold Pays at *
  simp only [Step.bind, List.length_append]
  omega

theorem Pays.andThen {first : Step (Option α) input} {otherwise : β}
    {next : α → (rest : List Token) → rest.length ≤ input.length → Step β rest}
    (hfirst : first.Pays (orHole weight) budget) (hotherwise : other otherwise ≤ 1)
    (hnext : ∀ value rest hle, (next value rest hle).Pays other (weight value)) :
    (first.andThen otherwise next).Pays other budget := by
  refine hfirst.bind ?_
  intro found rest hle
  cases found with
  | none => exact pays_pure hotherwise
  | some value => exact hnext value rest hle

/-- What was there before weighs on both sides, but not on a missing value. -/
theorem Pays.beside {step : Step (Option α) input} (before : Nat)
    (hstep : step.Pays (orHole weight) budget) :
    step.Pays (orHole fun value => before + weight value) (before + budget) := by
  unfold Pays at *
  cases hvalue : step.value with
  | none =>
      simp only [hvalue, orHole] at *
      omega
  | some value =>
      simp only [hvalue, orHole] at *
      omega

theorem pays_expect {endLine : Nat} {kind : Kind} (input : List Token) :
    (expect endLine kind input).Pays (orHole fun _ => 0) 0 := by
  cases input with
  | nil => exact pays_fail (Nat.le_refl 1)
  | cons token rest =>
      by_cases hkind : token.kind = kind
      · simp only [expect, if_pos hkind]
        apply Pays.behind
        exact pays_pure (Nat.le_refl 0)
      · simp only [expect, if_neg hkind]
        exact pays_fail (Nat.le_refl 1)

end Step

namespace Parser

open Step

variable {endLine : Nat}

theorem pays_expression_nil (floor : Precedence) :
    (expression endLine floor []).Pays Expr.holes 0 := by
  simp [Pays, expression]

theorem pays_expression_cons {floor : Precedence} {token : Token} {input : List Token}
    (hfrom : (expressionFrom endLine floor token input).Pays Expr.holes 0) :
    (expression endLine floor (token :: input)).Pays Expr.holes 0 := by
  rw [expression]
  exact hfrom.behind

theorem pays_expressionFrom_none {floor : Precedence} {token : Token} {input : List Token}
    (hopening : token.kind.opening? = none) :
    (expressionFrom endLine floor token input).Pays Expr.holes 0 := by
  rw [expressionFrom, hopening]
  exact pays_fail (by simp)

theorem pays_expressionFrom_some {floor : Precedence} {token : Token} {input : List Token}
    {opening : Opening} (hopening : token.kind.opening? = some opening)
    (hoperand : (operand endLine opening token input).Pays Expr.holes 0)
    (hchain : ∀ left (rest : List Token), rest.length ≤ input.length →
      (chain endLine floor left rest).Pays Expr.holes left.holes) :
    (expressionFrom endLine floor token input).Pays Expr.holes 0 := by
  rw [expressionFrom, hopening]
  exact hoperand.bind hchain

theorem pays_operand_name (token : Token) (input : List Token) :
    (operand endLine .name token input).Pays Expr.holes 0 := by
  rw [operand]
  exact pays_pure (by simp)

theorem pays_operand_integer (token : Token) (input : List Token) :
    (operand endLine .integer token input).Pays Expr.holes 0 := by
  rw [operand, integer]
  split
  · exact pays_pure (by simp)
  · exact pays_fail (by simp)

theorem pays_operand_boolean (token : Token) (input : List Token) :
    (operand endLine .boolean token input).Pays Expr.holes 0 := by
  rw [operand]
  exact pays_pure (by simp)

theorem pays_operand_unary {token : Token} {input : List Token}
    (hinner : (expression endLine .unary input).Pays Expr.holes 0) :
    (operand endLine .unary token input).Pays Expr.holes 0 := by
  rw [operand_unary]
  apply hinner.map
  simp

theorem pays_operand_group {token : Token} {input : List Token}
    (hinner : (enclosed endLine input).Pays (orHole Expr.holes) 0) :
    (operand endLine .group token input).Pays Expr.holes 0 := by
  rw [operand_group]
  apply hinner.map
  intro inner
  cases inner <;> simp [orHole]

theorem pays_conditionalTail {token : Token} {condition : Expr} {consequence : Block}
    {word : Option Token} {input : List Token}
    (hbraced : (braced endLine input).Pays (orHole Block.holes) 0) :
    (conditionalTail endLine token condition consequence word input).Pays Expr.holes
      (condition.holes + consequence.holes) := by
  cases word with
  | none => exact pays_pure (by simp)
  | some word =>
      rw [conditionalTail]
      refine (hbraced.beside (condition.holes + consequence.holes)).andThen (by simp) ?_
      intro alternative rest hle
      exact pays_pure (by simp)

theorem pays_operand_conditional {token : Token} {input : List Token}
    (henclosed : ∀ rest : List Token, rest.length ≤ input.length →
      (enclosed endLine rest).Pays (orHole Expr.holes) 0)
    (hbraced : ∀ rest : List Token, rest.length ≤ input.length →
      (braced endLine rest).Pays (orHole Block.holes) 0) :
    (operand endLine .conditional token input).Pays Expr.holes 0 := by
  rw [operand_conditional]
  refine (pays_expect input).andThen (by simp) ?_
  intro _ afterOpening hleOpening
  refine (henclosed afterOpening hleOpening).andThen (by simp) ?_
  intro condition afterCondition hleCondition
  have hle := Nat.le_trans hleCondition hleOpening
  refine ((hbraced afterCondition hle).beside condition.holes).andThen (by simp) ?_
  intro consequence afterConsequence hleConsequence
  -- The word between the blocks is no fault, so the budget passes it unchanged.
  have hword : (accept .elseWord afterConsequence).Pays
      (fun _ => condition.holes + consequence.holes)
      (condition.holes + consequence.holes) :=
    Nat.le_add_right _ _
  refine hword.bind ?_
  intro word afterWord hleWord
  apply pays_conditionalTail
  apply hbraced
  omega

theorem pays_chain_stop {floor : Precedence} {left : Expr} {input : List Token}
    (hstops : Stops floor input) :
    (chain endLine floor left input).Pays Expr.holes left.holes := by
  rw [chain_of_stops hstops]
  exact pays_pure (Nat.le_refl _)

theorem pays_chain_operator {floor : Precedence} {left : Expr} {token : Token}
    {input : List Token} (hfloor : floor < token.kind.precedence)
    (hright : (expression endLine token.kind.precedence input).Pays Expr.holes 0)
    (hchain : ∀ right (rest : List Token), rest.length ≤ input.length →
      (chain endLine floor (.binary token left token.literal right) rest).Pays Expr.holes
        (Expr.binary token left token.literal right).holes) :
    (chain endLine floor left (token :: input)).Pays Expr.holes left.holes := by
  rw [chain, if_pos hfloor]
  refine Pays.behind (Pays.bind ?_ hchain)
  unfold Pays at *
  simp only [Expr.holes_binary]
  omega

theorem pays_enclosed {input : List Token}
    (hinner : (expression endLine .lowest input).Pays Expr.holes 0) :
    (enclosed endLine input).Pays (orHole Expr.holes) 0 := by
  rw [enclosed]
  refine hinner.bind ?_
  intro inner rest hle
  refine ((pays_expect rest).beside inner.holes).map ?_
  intro closing
  cases closing <;> simp [orHole]

theorem pays_braced {input : List Token}
    (hblock : ∀ mark (rest : List Token), rest.length ≤ input.length →
      (block endLine mark rest).Pays Block.holes 0) :
    (braced endLine input).Pays (orHole Block.holes) 0 := by
  rw [braced]
  refine (pays_expect input).andThen (by simp [orHole]) ?_
  intro mark rest hle
  apply (hblock mark rest hle).map
  intro block
  simp [orHole]

theorem pays_block {mark : Token} {input : List Token}
    (hsequence : (sequence endLine .block input).Pays Stmt.holesOfAll 0) :
    (block endLine mark input).Pays Block.holes 0 := by
  rw [block]
  refine hsequence.bind ?_
  intro statements rest hle
  simp [Pays, Step.map]

theorem pays_statement_binding {token : Token} {input : List Token}
    (hword : token.kind = .letWord) :
    (statement endLine token input).Pays (fun first => Stmt.holesOfAll first.toList) 0 := by
  rw [statement, hword]
  refine (pays_expect input).andThen (by simp) ?_
  intro name afterName hleName
  refine (pays_expect afterName).andThen (by simp) ?_
  intro sign afterSign hleSign
  simp [Pays, Step.map]

theorem pays_statement_result {token : Token} {input : List Token}
    (hword : token.kind = .returnWord) :
    (statement endLine token input).Pays (fun first => Stmt.holesOfAll first.toList) 0 := by
  rw [statement, hword]
  simp [Pays, Step.map]

theorem pays_statement_expression {token : Token} {input : List Token}
    (hlet : token.kind ≠ .letWord) (hreturn : token.kind ≠ .returnWord)
    (hfrom : (expressionFrom endLine .lowest token input).Pays Expr.holes 0) :
    (statement endLine token input).Pays (fun first => Stmt.holesOfAll first.toList) 0 := by
  rw [statement_eq_expression hlet hreturn]
  refine hfrom.bind ?_
  intro value rest hle
  simp [Pays, Step.map]

theorem pays_sequence_stop {scope : Scope} {input : List Token} (hends : Ends scope input) :
    (sequence endLine scope input).Pays Stmt.holesOfAll 0 := by
  rw [sequence_of_ends hends]
  exact pays_pure (by simp)

theorem pays_sequence_cons {scope : Scope} {token : Token} {input : List Token}
    (hends : ¬ scope.endsAt token.kind = true)
    (hstatement : (statement endLine token input).Pays
      (fun first => Stmt.holesOfAll first.toList) 0)
    (hsequence : ∀ rest : List Token, rest.length ≤ input.length →
      (sequence endLine scope rest).Pays Stmt.holesOfAll 0) :
    (sequence endLine scope (token :: input)).Pays Stmt.holesOfAll 0 := by
  rw [sequence, if_neg hends]
  refine Pays.behind (hstatement.bind ?_)
  intro first rest hle
  have hothers := hsequence rest hle
  unfold Pays at *
  simp only [Step.map, Stmt.holesOfAll_append]
  omega

def paysMotive (endLine : Nat) : Motive where
  expression floor input := (expression endLine floor input).Pays Expr.holes 0
  expressionFrom floor token input := (expressionFrom endLine floor token input).Pays Expr.holes 0
  operand opening token input := (operand endLine opening token input).Pays Expr.holes 0
  enclosed input := (enclosed endLine input).Pays (orHole Expr.holes) 0
  braced input := (braced endLine input).Pays (orHole Block.holes) 0
  chain floor left input := (chain endLine floor left input).Pays Expr.holes left.holes
  block mark input := (block endLine mark input).Pays Block.holes 0
  statement token input :=
    (statement endLine token input).Pays (fun first => Stmt.holesOfAll first.toList) 0
  sequence scope input := (sequence endLine scope input).Pays Stmt.holesOfAll 0

theorem pays_cases (endLine : Nat) : (paysMotive endLine).Cases where
  expression_nil := pays_expression_nil _
  expression_cons := pays_expression_cons
  expressionFrom_none := pays_expressionFrom_none
  expressionFrom_some := pays_expressionFrom_some
  operand_name := pays_operand_name _ _
  operand_integer := pays_operand_integer _ _
  operand_boolean := pays_operand_boolean _ _
  operand_unary := pays_operand_unary
  operand_group := pays_operand_group
  operand_conditional := pays_operand_conditional
  enclosed_of_expression := pays_enclosed
  braced_of_block := pays_braced
  chain_stop := pays_chain_stop
  chain_operator := pays_chain_operator
  block_of_sequence := pays_block
  statement_binding := pays_statement_binding
  statement_result := pays_statement_result
  statement_expression := pays_statement_expression
  sequence_stop := pays_sequence_stop
  sequence_cons := pays_sequence_cons

theorem pays_sequence (endLine : Nat) (scope : Scope) (input : List Token) :
    (sequence endLine scope input).Pays Stmt.holesOfAll 0 :=
  (pays_cases endLine).holds.sequence scope input

/-- A program has no more holes than faults were found; without faults every node has all
the expressions that it asks for. -/
theorem holes_le_faults (tokens : List Token) (endLine : Nat) :
    (start tokens endLine).program.1.holes ≤ (start tokens endLine).program.2.faults.length ∧
    ((start tokens endLine).program.2.faults = [] →
      ∀ node ∈ (start tokens endLine).program.1.nodes, ∀ slot ∈ node.slots, slot ≠ .missing) := by
  have hbound : (start tokens endLine).program.1.holes ≤
      (start tokens endLine).program.2.faults.length := by
    have hpays := pays_sequence endLine .program tokens
    simpa [Pays, program, start] using hpays
  refine ⟨hbound, ?_⟩
  intro hclean
  apply holesOf_eq_zero_iff.mp
  rw [hclean] at hbound
  exact Nat.le_zero.mp hbound

end Parser

end Scriptlet
