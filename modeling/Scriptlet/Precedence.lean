import Scriptlet.Token

/-!
# Precedence

How tightly an operator binds.  An operator chain is read with a floor: only
operators that bind more tightly than the floor belong to the chain.
-/

namespace Scriptlet

/-- The binding strengths, from the weakest to the strongest. -/
inductive Precedence where
  /-- Everything that is no operator between two operands. -/
  | lowest
  | equality
  | comparison
  | sum
  | product
  /-- An operator in front of its only operand. -/
  | unary
  | call
deriving DecidableEq, Repr

namespace Precedence

/-- The place of a binding strength in their order. -/
def rank : Precedence → Nat
  | lowest => 0
  | equality => 1
  | comparison => 2
  | sum => 3
  | product => 4
  | unary => 5
  | call => 6

instance : LT Precedence := ⟨fun a b => a.rank < b.rank⟩

instance : LE Precedence := ⟨fun a b => a.rank ≤ b.rank⟩

instance (a b : Precedence) : Decidable (a < b) := Nat.decLt a.rank b.rank

instance (a b : Precedence) : Decidable (a ≤ b) := Nat.decLe a.rank b.rank

instance : Ord Precedence := ⟨fun a b => compare a.rank b.rank⟩

end Precedence

/-- The precedence of a token that stands between two operands. -/
def Kind.precedence : Kind → Precedence
  | .equal | .notEqual => .equality
  | .less | .greater => .comparison
  | .plus | .minus => .sum
  | .star | .slash => .product
  | _ => .lowest

end Scriptlet
