import Scriptlet.Parser.Basic
import Scriptlet.Proofs.Grammar.Layers

/-!
# Induction over the functions of the parser

The functions of the parser call each other, so what holds of one of them is proved
together with what holds of the others.  A motive is one property for each function, and
its cases are the branches of the functions.  In a case the properties of the functions
called there are given, for every list of tokens that the call may start from.
-/

namespace Scriptlet.Parser

def Ends (scope : Scope) (rest : List Token) : Prop :=
  Front (fun token => scope.endsAt token.kind = true) rest

theorem chain_of_stops {endLine : Nat} {floor : Precedence} {left : Expr} {input : List Token}
    (hstops : Stops floor input) : chain endLine floor left input = .pure left := by
  cases input with
  | nil => rw [chain]
  | cons token rest => rw [chain, if_neg (front_cons_iff.mp hstops)]

theorem sequence_of_ends {endLine : Nat} {scope : Scope} {input : List Token}
    (hends : Ends scope input) : sequence endLine scope input = .pure [] := by
  cases input with
  | nil => rw [sequence]
  | cons token rest => rw [sequence, if_pos (front_cons_iff.mp hends)]

structure Motive where
  expression : Precedence → List Token → Prop
  expressionFrom : Precedence → Token → List Token → Prop
  operand : Opening → Token → List Token → Prop
  enclosed : List Token → Prop
  braced : List Token → Prop
  chain : Precedence → Expr → List Token → Prop
  block : Token → List Token → Prop
  statement : Token → List Token → Prop
  sequence : Scope → List Token → Prop

namespace Motive

/-- Every function has its property if the functions that it calls have theirs. -/
structure Cases (motive : Motive) : Prop where
  expression_nil : ∀ {floor}, motive.expression floor []
  expression_cons : ∀ {floor token input},
    motive.expressionFrom floor token input → motive.expression floor (token :: input)
  expressionFrom_none : ∀ {floor token input}, token.kind.opening? = none →
    motive.expressionFrom floor token input
  expressionFrom_some : ∀ {floor token input opening}, token.kind.opening? = some opening →
    motive.operand opening token input →
    (∀ left (rest : List Token), rest.length ≤ input.length → motive.chain floor left rest) →
    motive.expressionFrom floor token input
  operand_name : ∀ {token input}, motive.operand .name token input
  operand_integer : ∀ {token input}, motive.operand .integer token input
  operand_boolean : ∀ {token input}, motive.operand .boolean token input
  operand_unary : ∀ {token input}, motive.expression .unary input →
    motive.operand .unary token input
  operand_group : ∀ {token input}, motive.enclosed input → motive.operand .group token input
  operand_conditional : ∀ {token} {input : List Token},
    (∀ rest : List Token, rest.length ≤ input.length → motive.enclosed rest) →
    (∀ rest : List Token, rest.length ≤ input.length → motive.braced rest) →
    motive.operand .conditional token input
  enclosed_of_expression : ∀ {input}, motive.expression .lowest input → motive.enclosed input
  braced_of_block : ∀ {input : List Token},
    (∀ mark (rest : List Token), rest.length ≤ input.length → motive.block mark rest) →
    motive.braced input
  chain_stop : ∀ {floor left input}, Stops floor input → motive.chain floor left input
  chain_operator : ∀ {floor left token input}, floor < token.kind.precedence →
    motive.expression token.kind.precedence input →
    (∀ right (rest : List Token), rest.length ≤ input.length →
      motive.chain floor (.binary token left token.literal right) rest) →
    motive.chain floor left (token :: input)
  block_of_sequence : ∀ {mark input}, motive.sequence .block input → motive.block mark input
  statement_binding : ∀ {token input}, token.kind = .letWord → motive.statement token input
  statement_result : ∀ {token input}, token.kind = .returnWord → motive.statement token input
  statement_expression : ∀ {token input}, token.kind ≠ .letWord → token.kind ≠ .returnWord →
    motive.expressionFrom .lowest token input → motive.statement token input
  sequence_stop : ∀ {scope input}, Ends scope input → motive.sequence scope input
  sequence_cons : ∀ {scope token input}, ¬ scope.endsAt token.kind = true →
    motive.statement token input →
    (∀ rest : List Token, rest.length ≤ input.length → motive.sequence scope rest) →
    motive.sequence scope (token :: input)

/-- Every function has its property. -/
structure Holds (motive : Motive) : Prop where
  expression : ∀ floor input, motive.expression floor input
  expressionFrom : ∀ floor token input, motive.expressionFrom floor token input
  operand : ∀ opening token input, motive.operand opening token input
  enclosed : ∀ input, motive.enclosed input
  braced : ∀ input, motive.braced input
  chain : ∀ floor left input, motive.chain floor left input
  block : ∀ mark input, motive.block mark input
  statement : ∀ token input, motive.statement token input
  sequence : ∀ scope input, motive.sequence scope input

theorem Cases.holds {motive : Motive} (cases : motive.Cases) : motive.Holds := by
  obtain ⟨hexpression, hexpressionFrom, hchain, hoperand, hbraced, hblock, hsequence, hstatement,
      henclosed⟩ :=
    expression.mutual_induct motive.expression motive.expressionFrom motive.chain motive.operand
      motive.braced motive.block motive.sequence motive.statement motive.enclosed
      (fun _ => cases.expression_nil) (fun _ _ _ => cases.expression_cons)
      (fun _ _ _ => cases.expressionFrom_none) (fun _ _ _ _ => cases.expressionFrom_some)
      (fun _ _ => cases.chain_stop front_nil) (fun _ _ _ _ => cases.chain_operator)
      (fun _ _ _ _ hfloor => cases.chain_stop (front_cons_iff.mpr hfloor))
      (fun _ _ => cases.operand_name) (fun _ _ => cases.operand_integer)
      (fun _ _ => cases.operand_boolean) (fun _ _ => cases.operand_unary)
      (fun _ _ => cases.operand_group)
      (fun _ input henclosed hbraced _ =>
        cases.operand_conditional henclosed (hbraced input (Nat.le_refl _)))
      (fun _ => cases.braced_of_block) (fun _ _ => cases.block_of_sequence)
      (fun _ => cases.sequence_stop front_nil)
      (fun _ _ _ hends => cases.sequence_stop (front_cons_iff.mpr hends))
      (fun _ _ _ => cases.sequence_cons) (fun _ _ => cases.statement_binding)
      (fun _ _ => cases.statement_result) (fun _ _ => cases.statement_expression)
      (fun _ => cases.enclosed_of_expression)
  exact ⟨hexpression, hexpressionFrom, hoperand, henclosed, hbraced, hchain, hblock, hstatement,
    hsequence⟩

end Motive

end Scriptlet.Parser
