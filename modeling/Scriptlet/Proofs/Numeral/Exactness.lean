import Scriptlet.Proofs.Numeral.Grammar
import Scriptlet.Proofs.Text.Lines

/-!
# Reading literals exactly

Without a sign in it, a text is read if and only if it is a literal and its value fits,
and then it is read as that value.  The announcement is told from the first two bytes
of the text, and cutting it off never cuts a character in two.

With a sign in it, a text is read only if the sign is hidden behind the underscore of an
announcement.
-/

namespace Scriptlet.Numeral

/-- How many bytes announce a radix, told from the first two bytes of a literal. -/
def announcementSize : List UInt8 → Nat
  | first :: second :: _ =>
    if first = 48 then if second ∈ Text.bytes "xXoObB" then 2 else 1 else 0
  | _ => 0

theorem announcementSize_of_plain {text : List Char} (hplain : ∀ c cs, text ≠ '0' :: c :: cs) :
    announcementSize (Text.bytes (String.ofList text)) = 0 := by
  unfold announcementSize
  split
  · rename_i first second rest hbytes
    apply if_neg
    rintro rfl
    obtain ⟨tail, rfl, htail⟩ := Text.exists_cons_of_bytes hbytes (by decide)
    cases tail with
    | nil => contradiction
    | cons c cs => exact hplain c cs rfl
  · rfl

theorem announcementSize_of_octal {c : Char} {digits : List Char} (hc : c ∉ "xXoObB".toList) :
    announcementSize (Text.bytes (String.ofList ('0' :: c :: digits))) = 1 := by
  have hletters : (Text.bytes "xXoObB").all (fun byte => byte.toNat < 128 &&
      "xXoObB".toList.contains (Char.ofNat byte.toNat)) = true := by decide
  obtain ⟨second, rest, hbytes⟩ : ∃ second rest,
      Text.bytes (String.ofList (c :: digits)) = second :: rest := by
    apply List.exists_cons_of_ne_nil
    rw [Text.bytes_ofList, List.flatMap_cons]
    exact List.append_ne_nil_of_left_ne_nil String.utf8EncodeChar_ne_nil _
  have hsecond : second ∉ Text.bytes "xXoObB" := by
    intro hmem
    obtain ⟨hascii, hletter⟩ : second.toNat < 128 ∧
        Char.ofNat second.toNat ∈ "xXoObB".toList := by
      simpa using List.all_eq_true.mp hletters second hmem
    obtain ⟨tail, htext, _⟩ := Text.exists_cons_of_bytes hbytes hascii
    rw [(List.cons.inj htext).1] at hc
    exact hc hletter
  have hzero : Text.bytes (String.ofList ('0' :: c :: digits)) = 48 :: second :: rest := by
    rw [← hbytes, Text.bytes_ofList, Text.bytes_ofList]
    rfl
  rw [hzero]
  simp [announcementSize, hsecond]

theorem exists_cut (text : String) :
    ∃ mark rest : String, text = mark ++ rest ∧
      (Text.bytes mark).length = announcementSize (Text.bytes text) ∧
      rest.toList = (split text.toList).digits := by
  have htext : text = String.ofList text.toList := String.ofList_toList.symm
  generalize text.toList = chars at htext
  subst htext
  unfold split
  split
  case h_7 c digits hx hX ho hO hb hB =>
    have hc : c ∉ "xXoObB".toList := by simpa using ⟨hx, hX, ho, hO, hb, hB⟩
    refine ⟨"0", String.ofList (c :: digits), @String.ofList_append ['0'] _, ?_,
      String.toList_ofList⟩
    exact (announcementSize_of_octal hc).symm
  case h_8 hplain =>
    refine ⟨"", String.ofList chars, by simp, ?_, String.toList_ofList⟩
    exact (announcementSize_of_plain hplain).symm
  all_goals
    refine ⟨String.ofList [_, _], String.ofList _, @String.ofList_append [_, _] _, ?_,
      String.toList_ofList⟩
    rw [Text.bytes_ofList, Text.bytes_ofList]
    rfl

theorem value?_eq_some_iff_literal {text : String} {value : Int} (hplus : '+' ∉ text.toList)
    (hminus : '-' ∉ text.toList) :
    value? text = some value ↔
      ∃ radix digits, Literal text.toList radix digits ∧ value = valueOf radix digits ∧
        value ≤ 2 ^ 63 - 1 := by
  have hgreatest : greatest = 2 ^ 63 - 1 := rfl
  have hleast : least ≤ 0 := by decide
  have hsign : ¬ HidesSign text.toList value := by
    intro hhides
    exact hhides.signed.elim hplus hminus
  rw [value?_eq_some_iff, hgreatest]
  constructor
  · rintro ⟨⟨radix, digits, hliteral, hvalue⟩ | hhides, _, hle⟩
    · exact ⟨radix, digits, hliteral, hvalue, hle⟩
    · contradiction
  · rintro ⟨radix, digits, hliteral, hvalue, hle⟩
    have hnonneg : 0 ≤ value := by
      rw [hvalue]
      exact Int.natCast_nonneg _
    exact ⟨.inl ⟨radix, digits, hliteral, hvalue⟩, Int.le_trans hleast hnonneg, hle⟩

/-- A text without a sign is read as the value of a literal that fits, and as nothing if it is
none; its announcement is cut off between two characters. -/
theorem value?_exact (text : String) (hplus : '+' ∉ text.toList) (hminus : '-' ∉ text.toList) :
    (∀ value : Int, value? text = some value ↔
      ∃ radix digits, Literal text.toList radix digits ∧ value = valueOf radix digits ∧
        value ≤ 2 ^ 63 - 1) ∧
    (value? text = none ↔
      ∀ radix digits, Literal text.toList radix digits → 2 ^ 63 ≤ valueOf radix digits) ∧
    ∃ mark rest : String, text = mark ++ rest ∧
      (Text.bytes mark).length = announcementSize (Text.bytes text) ∧
      rest.toList = (split text.toList).digits := by
  refine ⟨fun value => value?_eq_some_iff_literal hplus hminus, ?_, exists_cut text⟩
  rw [Option.eq_none_iff_forall_ne_some]
  constructor
  · intro hnone radix digits hliteral
    by_contra hfits
    refine hnone (valueOf radix digits) ((value?_eq_some_iff_literal hplus hminus).mpr ?_)
    exact ⟨radix, digits, hliteral, rfl, by omega⟩
  · intro hlarge value hvalue
    obtain ⟨radix, digits, hliteral, rfl, hle⟩ :=
      (value?_eq_some_iff_literal hplus hminus).mp hvalue
    have := hlarge radix digits hliteral
    omega

theorem value?_hexadecimal :
    ('+' ∉ "0x_7_F".toList ∧ '-' ∉ "0x_7_F".toList) ∧ value? "0x_7_F" = some 127 := by
  have hplus : '+' ∉ "0x_7_F".toList := by decide
  have hminus : '-' ∉ "0x_7_F".toList := by decide
  have hseven : DigitOf 16 '7' 7 := by decide
  have hlast : DigitOf 16 'F' 15 := by decide
  have hliteral : Literal "0x_7_F".toList 16 [7, 15] :=
    @Literal.announced ['0', 'x'] _ _ _ (by decide) (.underscored (.apart hseven (.last hlast)))
  refine ⟨⟨hplus, hminus⟩, ((value?_exact "0x_7_F" hplus hminus).1 127).mpr ?_⟩
  exact ⟨16, [7, 15], hliteral, by decide, by decide⟩

/-! ## Signs -/

/-- A text that is read has a sign in it, or a negative value, exactly if it hides its sign; and
whatever hides its sign is read, if its value fits. -/
theorem unsigned_iff_not_hidesSign (text : String) (value : Int) :
    (value? text = some value →
      (('+' ∉ text.toList ∧ '-' ∉ text.toList ∧ 0 ≤ value) ↔ ¬ HidesSign text.toList value)) ∧
    (HidesSign text.toList value → least ≤ value → value ≤ greatest →
      value? text = some value) := by
  constructor
  · intro hvalue
    constructor
    · rintro ⟨hplus, hminus, _⟩ hhides
      exact hhides.signed.elim hplus hminus
    · intro hhides
      obtain ⟨⟨radix, digits, hliteral, rfl⟩ | hhidden, _⟩ := value?_eq_some_iff.mp hvalue
      · exact ⟨hliteral.unsigned.1, hliteral.unsigned.2, Int.natCast_nonneg _⟩
      · contradiction
  · intro hhides hleast hgreatest
    exact value?_eq_some_iff.mpr ⟨.inr hhides, hleast, hgreatest⟩

theorem value?_hidden_plus :
    HidesSign "0_+7".toList 7 ∧ value? "0_+7" = some 7 ∧
      ¬ ('+' ∉ "0_+7".toList ∧ '-' ∉ "0_+7".toList ∧ (0 : Int) ≤ 7) := by
  have hseven : DigitOf 8 '7' 7 := by decide
  have hhides : HidesSign "0_+7".toList 7 :=
    ⟨['0'], 8, '+', ['7'], [7], by decide, rfl, rfl, .bare (.last hseven), by decide⟩
  have hvalue := (unsigned_iff_not_hidesSign "0_+7" 7).2 hhides (by decide) (by decide)
  refine ⟨hhides, hvalue, ?_⟩
  rw [(unsigned_iff_not_hidesSign "0_+7" 7).1 hvalue]
  exact not_not_intro hhides

/-- Behind an announcement and its underscore a minus counts. -/
theorem value?_hidden_minus :
    value? "0x_-5" = some (-5) ∧ '-' ∈ "0x_-5".toList ∧ ¬ (0 : Int) ≤ -5 := by
  decide

end Scriptlet.Numeral
