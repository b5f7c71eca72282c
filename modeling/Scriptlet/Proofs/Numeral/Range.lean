import Scriptlet.Numeral

/-!
# The range of literals

A literal has the value of a signed 64-bit word.  Only a minus sign makes a value
negative, and cutting the radix announcement and the underscores off brings no sign
into the digits that was not in the literal.
-/

namespace Scriptlet.Numeral

theorem value?_eq_some {literal : String} {value : Int} (hvalue : value? literal = some value) :
    signed? (split literal.toList).radix
        ((split literal.toList).digits.filter (· != '_')) = some value ∧
      least ≤ value ∧ value ≤ greatest := by
  simp only [value?] at hvalue
  split at hvalue
  · simpa [Option.filter_eq_some_iff] using hvalue
  · contradiction

theorem mem_of_mem_digits {literal : List Char} {c : Char} (hmem : c ∈ (split literal).digits) :
    c ∈ literal := by
  unfold split at hmem
  split at hmem <;> simp_all

theorem nonneg_of_signed? {radix : Nat} {digits : List Char} {value : Int}
    (hminus : '-' ∉ digits) (hvalue : signed? radix digits = some value) : 0 ≤ value := by
  have hunsigned : ∀ others, ((magnitude? radix others).map fun n => (n : Int)) = some value →
      0 ≤ value := by
    intro others hothers
    obtain ⟨magnitude, _, rfl⟩ : ∃ magnitude, magnitude? radix others = some magnitude ∧
        (magnitude : Int) = value := by
      simpa [Option.bind_eq_some_iff] using hothers
    exact Int.natCast_nonneg magnitude
  unfold signed? at hvalue
  split at hvalue
  · exact hunsigned _ hvalue
  · exact absurd List.mem_cons_self hminus
  · exact hunsigned _ hvalue

theorem nonneg_of_value? {literal : String} {value : Int} (hminus : '-' ∉ literal.toList)
    (hvalue : value? literal = some value) : 0 ≤ value := by
  refine nonneg_of_signed? ?_ (value?_eq_some hvalue).1
  intro hmem
  exact hminus (mem_of_mem_digits (List.mem_filter.mp hmem).1)

end Scriptlet.Numeral
