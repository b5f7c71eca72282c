import Mathlib.Logic.Function.Iterate
import Scriptlet.Proofs.Grammar.Derivation

/-!
# Layers and floors

The grammar speaks of layers and the parser of floors.  A floor admits the
operators of the layers above it, so what is read over a floor belongs to the
first layer above it.  The two orders are compared through the precedence of the
operators of a layer.
-/

namespace Scriptlet

namespace Layer

/-- The precedence of the operators of a layer; operands bind like the operators
in front of them. -/
def precedence : Layer → Precedence
  | equality => .equality
  | comparison => .comparison
  | sum => .sum
  | product => .product
  | unary => .unary

/-- The loosest layer whose operators exceed a floor. -/
def above : Precedence → Layer
  | .lowest => equality
  | .equality => comparison
  | .comparison => sum
  | .sum => product
  | .product | .unary | .call => unary

instance : LE Layer := ⟨fun a b => a.precedence ≤ b.precedence⟩

instance (a b : Layer) : Decidable (a ≤ b) :=
  inferInstanceAs (Decidable (a.precedence ≤ b.precedence))

protected theorem le_refl (layer : Layer) : layer ≤ layer :=
  Nat.le_refl layer.precedence.rank

theorem le_unary (layer : Layer) : layer ≤ unary := by
  cases layer <;> decide

theorem le_tighter (layer : Layer) : layer ≤ layer.tighter := by
  cases layer <;> decide

protected theorem le_trans {a b c : Layer} (hab : a ≤ b) (hbc : b ≤ c) : a ≤ c :=
  Nat.le_trans (show a.precedence.rank ≤ b.precedence.rank from hab)
    (show b.precedence.rank ≤ c.precedence.rank from hbc)

theorem exists_iterate_tighter {loose tight : Layer} (hle : loose ≤ tight) :
    ∃ count, tighter^[count] loose = tight := by
  refine ⟨tight.precedence.rank - loose.precedence.rank, ?_⟩
  revert hle
  cases loose <;> cases tight <;> decide

theorem above_le_of_lt {floor : Precedence} {layer : Layer} (hfloor : floor < layer.precedence) :
    above floor ≤ layer := by
  revert hfloor
  cases floor <;> cases layer <;> decide

theorem precedence_of_mem_operators {layer : Layer} {kind : Kind}
    (hkind : kind ∈ layer.operators) : kind.precedence = layer.precedence := by
  revert kind
  cases layer <;> simp [operators, precedence, Kind.precedence]

theorem mem_operators_of_precedence {layer : Layer} {kind : Kind}
    (hkind : kind.precedence = layer.precedence) : kind ∈ layer.operators := by
  cases kind <;> cases layer <;> cases hkind <;> simp [operators]

theorem mem_operators_iff {layer : Layer} {kind : Kind} :
    kind ∈ layer.operators ↔ kind.precedence = layer.precedence :=
  ⟨precedence_of_mem_operators, mem_operators_of_precedence⟩

theorem above_precedence {layer : Layer} {kind : Kind} (hkind : kind ∈ layer.operators) :
    above kind.precedence = layer.tighter := by
  rw [precedence_of_mem_operators hkind]
  cases layer <;> rfl

theorem exists_operator {floor : Precedence} {kind : Kind} (hkind : floor < kind.precedence) :
    ∃ layer, kind ∈ layer.operators ∧ above floor ≤ layer := by
  have hlayer : ∃ layer : Layer, kind.precedence = layer.precedence := by
    cases hprecedence : kind.precedence with
    | equality => exact ⟨equality, rfl⟩
    | comparison => exact ⟨comparison, rfl⟩
    | sum => exact ⟨sum, rfl⟩
    | product => exact ⟨product, rfl⟩
    | unary => exact ⟨unary, rfl⟩
    | lowest =>
        rw [hprecedence] at hkind
        exact absurd hkind (Nat.not_lt_zero _)
    | call => cases kind <;> cases hprecedence
  obtain ⟨layer, hlayer⟩ := hlayer
  exact ⟨layer, mem_operators_of_precedence hlayer, above_le_of_lt (hlayer ▸ hkind)⟩

theorem lt_precedence_of_mem {floor : Precedence} {layer : Layer} {kind : Kind}
    (hfloor : above floor ≤ layer) (hkind : kind ∈ layer.operators) :
    floor < kind.precedence := by
  rw [precedence_of_mem_operators hkind]
  have hne : layer ≠ unary := by
    rintro rfl
    exact absurd hkind List.not_mem_nil
  revert hfloor hne
  cases floor <;> cases layer <;> decide

theorem precedence_le_unary (kind : Kind) : kind.precedence ≤ Layer.unary.precedence := by
  cases kind <;> decide

theorem not_precedence_lt_of_le {layer : Layer} {kind other : Kind}
    (hkind : kind ∈ layer.operators) (hother : other.precedence ≤ layer.precedence) :
    ¬ kind.precedence < other.precedence := by
  rw [precedence_of_mem_operators hkind]
  exact Nat.not_lt.mpr hother

end Layer

/-- Nothing at the front of `rest` exceeds the floor. -/
def Stops (floor : Precedence) (rest : List Token) : Prop :=
  Front (fun token => ¬ floor < token.kind.precedence) rest

namespace Derives

theorem loosen {loose tight : Layer} {value : Expr} {input rest : List Token}
    (hle : loose ≤ tight) (hderives : Derives (.expression tight value) input rest) :
    Derives (.expression loose value) input rest := by
  obtain ⟨count, rfl⟩ := Layer.exists_iterate_tighter hle
  clear hle
  induction count generalizing loose with
  | zero => exact hderives
  | succ count ih => exact .single (ih hderives)

end Derives

end Scriptlet
