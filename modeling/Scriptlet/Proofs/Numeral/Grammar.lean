import Mathlib.Data.List.Forall2
import Mathlib.Data.Nat.Digits.Defs
import Mathlib.Tactic.IntervalCases
import Mathlib.Tactic.Ring
import Scriptlet.Proofs.Numeral.Range

/-!
# The grammar of literals

Which texts are literals, and of which value, said without the function that reads them.
Only one thing is read that is no literal in this sense.  The underscore behind an
announcement hides a sign from the check that no sign opens the digits, and when the
underscores are gone the sign counts.
-/

namespace Scriptlet.Numeral

/-- The character stands for the digit, in either case. -/
def DigitOf (radix : Nat) (c : Char) (digit : Nat) : Prop :=
  digit < radix ∧
    ("0123456789abcdef".toList[digit]? = some c ∨ "0123456789ABCDEF".toList[digit]? = some c)

instance (radix : Nat) (c : Char) (digit : Nat) : Decidable (DigitOf radix c digit) :=
  inferInstanceAs (Decidable (_ ∧ _))

/-- The texts that announce a radix. -/
def announcements : List (List Char × Nat) :=
  [("0x".toList, 16), ("0X".toList, 16), ("0o".toList, 8), ("0O".toList, 8), ("0b".toList, 2),
    ("0B".toList, 2), ("0".toList, 8)]

def alphabet : List Char :=
  "0123456789abcdefABCDEF_xXoObB".toList

/-- Digits, with single underscores between them and nowhere else. -/
inductive Separated (radix : Nat) : List Char → List Nat → Prop
  | last {c : Char} {digit : Nat} (hdigit : DigitOf radix c digit) : Separated radix [c] [digit]
  | next {c : Char} {digit : Nat} {text : List Char} {digits : List Nat}
      (hdigit : DigitOf radix c digit) (hrest : Separated radix text digits) :
      Separated radix (c :: text) (digit :: digits)
  | apart {c : Char} {digit : Nat} {text : List Char} {digits : List Nat}
      (hdigit : DigitOf radix c digit) (hrest : Separated radix text digits) :
      Separated radix (c :: '_' :: text) (digit :: digits)

/-- Separated digits, with or without an underscore in front. -/
inductive Grouped (radix : Nat) : List Char → List Nat → Prop
  | bare {text : List Char} {digits : List Nat} (hdigits : Separated radix text digits) :
      Grouped radix text digits
  | underscored {text : List Char} {digits : List Nat} (hdigits : Separated radix text digits) :
      Grouped radix ('_' :: text) digits

/-- The text is a literal with these digits. -/
inductive Literal : List Char → Nat → List Nat → Prop
  | announced {mark text : List Char} {radix : Nat} {digits : List Nat}
      (hmark : (mark, radix) ∈ announcements) (hdigits : Grouped radix text digits) :
      Literal (mark ++ text) radix digits
  | decimal {text : List Char} {digits : List Nat} (hplain : ∀ c cs, text ≠ '0' :: c :: cs)
      (hdigits : Separated 10 text digits) : Literal text 10 digits

/-- The number that the digits denote in the radix, the first digit being the highest. -/
def valueOf (radix : Nat) (digits : List Nat) : Nat :=
  Nat.ofDigits radix digits.reverse

/-- The text has a sign behind the underscore of an announcement, and is of this value. -/
def HidesSign (text : List Char) (value : Int) : Prop :=
  ∃ mark radix sign rest digits, (mark, radix) ∈ announcements ∧ isSign sign = true ∧
    text = mark ++ '_' :: sign :: rest ∧ Grouped radix rest digits ∧
    value = if sign = '-' then -(valueOf radix digits : Int) else valueOf radix digits

theorem toNat_lt_of_digit? {radix digit : Nat} {c : Char} (hdigit : digit? radix c = some digit) :
    c.toNat < 128 := by
  by_contra hcode
  have hbeyond : ∀ d : Char, d.toNat < 128 → decide (c.val ≤ d.val) = false := by
    intro d hd
    apply decide_eq_false
    intro hle
    have hcodes : c.toNat ≤ d.toNat := UInt32.le_iff_toNat_le.mp hle
    omega
  have hdecimal : c.isDigit = false := by
    change (decide ('0'.val ≤ c.val) && decide (c.val ≤ '9'.val)) = false
    rw [hbeyond '9' (by decide), Bool.and_false]
  have hlower : c.isLower = false := by
    change (decide ('a'.val ≤ c.val) && decide (c.val ≤ 'z'.val)) = false
    rw [hbeyond 'z' (by decide), Bool.and_false]
  have hupper : c.isUpper = false := by
    change decide ('A'.val ≤ c.val ∧ c.val ≤ 'Z'.val) = false
    rw [Bool.decide_and, hbeyond 'Z' (by decide), Bool.and_false]
  simp [digit?, hdecimal, hlower, hupper] at hdigit

theorem digit?_sixteen_iff {digit : Nat} {c : Char} (hdigit : digit < 16) :
    digit? 16 c = some digit ↔
      "0123456789abcdef".toList[digit]? = some c ∨ "0123456789ABCDEF".toList[digit]? = some c := by
  constructor
  · intro hvalue
    have hascii : ∀ code < 128, ∀ digit < 16, digit? 16 (Char.ofNat code) = some digit →
        "0123456789abcdef".toList[digit]? = some (Char.ofNat code) ∨
          "0123456789ABCDEF".toList[digit]? = some (Char.ofNat code) := by
      decide +kernel
    have hchar := hascii c.toNat (toNat_lt_of_digit? hvalue) digit hdigit
    rw [Char.ofNat_toNat] at hchar
    exact hchar hvalue
  · intro hchar
    interval_cases digit <;> rcases hchar with hchar | hchar <;> cases hchar <;> rfl

theorem digit?_eq_some_iff {radix digit : Nat} {c : Char} (hradix : radix ≤ 16) :
    digit? radix c = some digit ↔ DigitOf radix c digit := by
  have hsixteen : digit? radix c = some digit ↔ digit < radix ∧ digit? 16 c = some digit := by
    simp only [digit?, Option.filter_eq_some_iff, decide_eq_true_eq]
    grind
  rw [hsixteen, DigitOf]
  refine and_congr_right fun hlt => ?_
  exact digit?_sixteen_iff (by omega)

theorem DigitOf.mem {radix digit : Nat} {c : Char} (hdigit : DigitOf radix c digit) :
    c ∈ "0123456789abcdefABCDEF".toList := by
  have hlower : "0123456789abcdef".toList ⊆ "0123456789abcdefABCDEF".toList :=
    List.subset_append_left _ "ABCDEF".toList
  have hupper : "0123456789ABCDEF".toList ⊆ "0123456789abcdefABCDEF".toList := by decide
  rcases hdigit.2 with hchar | hchar
  · exact hlower (List.mem_of_getElem? hchar)
  · exact hupper (List.mem_of_getElem? hchar)

theorem DigitOf.ne_underscore {radix digit : Nat} {c : Char} (hdigit : DigitOf radix c digit) :
    c ≠ '_' := by
  rintro rfl
  exact absurd hdigit.mem (by decide)

theorem DigitOf.isSign_eq_false {radix digit : Nat} {c : Char} (hdigit : DigitOf radix c digit) :
    isSign c = false := by
  have hall : "0123456789abcdefABCDEF".toList.all (fun c => !isSign c) = true := by decide
  simpa using List.all_eq_true.mp hall c hdigit.mem

theorem DigitOf.notMem_of_octal {digit : Nat} {c : Char} (hdigit : DigitOf 8 c digit) :
    c ∉ "xXoObB".toList := by
  obtain ⟨hlt, hchar⟩ := hdigit
  interval_cases digit <;> rcases hchar with hchar | hchar <;> cases hchar <;> decide

theorem positional?_eq_some_iff {radix acc value : Nat} {text : List Char} (hradix : radix ≤ 16) :
    positional? radix acc text = some value ↔
      ∃ digits, List.Forall₂ (DigitOf radix) text digits ∧
        value = valueOf radix (acc :: digits) := by
  induction text generalizing acc with
  | nil => simp [positional?, valueOf, eq_comm]
  | cons c text ih =>
      -- Reading a digit moves it from the text into the number read so far.
      have hshift : ∀ digit digits, valueOf radix ((acc * radix + digit) :: digits) =
          valueOf radix (acc :: digit :: digits) := by
        intro digit digits
        simp only [valueOf, Nat.ofDigits_reverse_cons, List.length_cons]
        ring
      simp only [positional?, bind, Option.bind_eq_some_iff, digit?_eq_some_iff hradix, ih,
        List.forall₂_cons_left_iff, hshift]
      constructor
      · rintro ⟨digit, hdigit, digits, hdigits, hvalue⟩
        exact ⟨digit :: digits, ⟨digit, digits, hdigit, hdigits, rfl⟩, hvalue⟩
      · rintro ⟨_, ⟨digit, digits, hdigit, hdigits, rfl⟩, hvalue⟩
        exact ⟨digit, hdigit, digits, hdigits, hvalue⟩

theorem magnitude?_eq_some_iff {radix value : Nat} {text : List Char} (hradix : radix ≤ 16) :
    magnitude? radix text = some value ↔
      ∃ digits, digits ≠ [] ∧ List.Forall₂ (DigitOf radix) text digits ∧
        value = valueOf radix digits := by
  have hzero : ∀ digits, valueOf radix (0 :: digits) = valueOf radix digits :=
    fun digits => Nat.ofDigits_reverse_zero_cons digits
  cases text with
  | nil => simp [magnitude?]
  | cons c text =>
      simp only [magnitude?, positional?_eq_some_iff hradix, hzero]
      constructor
      · rintro ⟨digits, hdigits, hvalue⟩
        refine ⟨digits, ?_, hdigits, hvalue⟩
        rintro rfl
        cases hdigits
      · rintro ⟨digits, _, hdigits, hvalue⟩
        exact ⟨digits, hdigits, hvalue⟩

/-! ## Underscores -/

def OpensBare (text : List Char) : Prop :=
  ∃ c rest, text = c :: rest ∧ c ≠ '_'

theorem opensBare_cons_iff {c : Char} {text : List Char} :
    OpensBare (c :: text) ↔ c ≠ '_' := by
  simp [OpensBare]

theorem underscoresFollowed_cons_iff {c : Char} {text : List Char} :
    underscoresFollowed (c :: text) = true ↔
      (c = '_' → OpensBare text) ∧ underscoresFollowed text = true := by
  by_cases hc : c = '_'
  · subst hc
    cases text with
    | nil => simp [underscoresFollowed, OpensBare]
    | cons d rest =>
        by_cases hd : d = '_'
        · simp [hd, underscoresFollowed, opensBare_cons_iff]
        · simp [hd, underscoresFollowed, opensBare_cons_iff]
  · simp [hc, underscoresFollowed]

theorem separated_of_underscoresFollowed {radix : Nat} {text : List Char} {digits : List Nat}
    (hopens : OpensBare text) (hfollowed : underscoresFollowed text = true)
    (hdigits : List.Forall₂ (DigitOf radix) (text.filter (· != '_')) digits) :
    Separated radix text digits := by
  induction digits generalizing text with
  | nil =>
      obtain ⟨c, rest, rfl, hc⟩ := hopens
      simp [hc] at hdigits
  | cons digit digits ih =>
      obtain ⟨c, rest, rfl, hc⟩ := hopens
      obtain ⟨hdigit, hdigits⟩ : DigitOf radix c digit ∧
          List.Forall₂ (DigitOf radix) (rest.filter (· != '_')) digits := by
        simpa [hc] using hdigits
      have hrest := (underscoresFollowed_cons_iff.mp hfollowed).2
      cases rest with
      | nil =>
          cases hdigits
          exact .last hdigit
      | cons d rest =>
          by_cases hd : d = '_'
          · subst hd
            obtain ⟨hnext, hfollowed⟩ := underscoresFollowed_cons_iff.mp hrest
            exact .apart hdigit (ih (hnext rfl) hfollowed (by simpa using hdigits))
          · exact .next hdigit (ih (opensBare_cons_iff.mpr hd) hrest hdigits)

theorem separated_iff {radix : Nat} {text : List Char} {digits : List Nat} :
    Separated radix text digits ↔
      OpensBare text ∧ underscoresFollowed text = true ∧
        List.Forall₂ (DigitOf radix) (text.filter (· != '_')) digits := by
  constructor
  · intro hseparated
    induction hseparated with
    | last hdigit =>
        simp [opensBare_cons_iff, underscoresFollowed, hdigit, hdigit.ne_underscore]
    | next hdigit _ ih | apart hdigit _ ih =>
        simp [opensBare_cons_iff, underscoresFollowed_cons_iff, hdigit, hdigit.ne_underscore, ih]
  · rintro ⟨hopens, hfollowed, hdigits⟩
    exact separated_of_underscoresFollowed hopens hfollowed hdigits

theorem separated_iff_grouped {radix : Nat} {text : List Char} {digits : List Nat} :
    Separated radix text digits ↔ OpensBare text ∧ Grouped radix text digits := by
  constructor
  · intro hseparated
    exact ⟨(separated_iff.mp hseparated).1, .bare hseparated⟩
  · rintro ⟨hopens, hseparated | hseparated⟩
    · exact hseparated
    · exact absurd rfl (opensBare_cons_iff.mp hopens)

theorem grouped_iff {radix : Nat} {text : List Char} {digits : List Nat} :
    Grouped radix text digits ↔
      digits ≠ [] ∧ underscoresFollowed text = true ∧
        List.Forall₂ (DigitOf radix) (text.filter (· != '_')) digits := by
  constructor
  · intro hgrouped
    have hne : digits ≠ [] := by
      rcases hgrouped with hseparated | hseparated <;> cases hseparated <;> simp
    rcases hgrouped with hseparated | hseparated
    · exact ⟨hne, (separated_iff.mp hseparated).2⟩
    · obtain ⟨hopens, hfollowed, hdigits⟩ := separated_iff.mp hseparated
      refine ⟨hne, underscoresFollowed_cons_iff.mpr ⟨fun _ => hopens, hfollowed⟩, ?_⟩
      simpa using hdigits
  · rintro ⟨hne, hfollowed, hdigits⟩
    cases text with
    | nil =>
        cases hdigits
        contradiction
    | cons c rest =>
        by_cases hc : c = '_'
        · subst hc
          obtain ⟨hopens, hfollowed⟩ := underscoresFollowed_cons_iff.mp hfollowed
          exact .underscored (separated_iff.mpr ⟨hopens rfl, hfollowed, by simpa using hdigits⟩)
        · exact .bare (separated_iff.mpr ⟨opensBare_cons_iff.mpr hc, hfollowed, hdigits⟩)

theorem radix_le_of_mem {mark : List Char} {radix : Nat} (hmark : (mark, radix) ∈ announcements) :
    radix ≤ 16 := by
  have hall : ∀ entry ∈ announcements, entry.2 ≤ 16 := by decide
  exact hall _ hmark

/-- What is cut off a literal announces the radix; nothing is cut off where nothing does. -/
theorem split_cases (text : List Char) :
    (split text = ⟨10, false, text⟩ ∧ ∀ c cs, text ≠ '0' :: c :: cs) ∨
      ∃ mark radix digits, split text = ⟨radix, true, digits⟩ ∧ (mark, radix) ∈ announcements ∧
        text = mark ++ digits := by
  unfold split
  split
  case h_8 hplain => exact .inl ⟨rfl, hplain⟩
  all_goals simp [announcements]

theorem split_of_mem {mark rest : List Char} {radix : Nat} {c : Char}
    (hmark : (mark, radix) ∈ announcements) (hfirst : radix = 8 → c ∉ "xXoObB".toList) :
    split (mark ++ c :: rest) = ⟨radix, true, c :: rest⟩ := by
  simp only [announcements, List.mem_cons, Prod.mk.injEq, List.not_mem_nil, or_false] at hmark
  rcases hmark with ⟨rfl, rfl⟩ | ⟨rfl, rfl⟩ | ⟨rfl, rfl⟩ | ⟨rfl, rfl⟩ | ⟨rfl, rfl⟩ |
    ⟨rfl, rfl⟩ | ⟨rfl, rfl⟩
  all_goals simp_all [split]

theorem split_of_plain {text : List Char} (hplain : ∀ c cs, text ≠ '0' :: c :: cs) :
    split text = ⟨10, false, text⟩ := by
  unfold split
  split <;> simp_all

/-! ## Values -/

/-- The parts are accepted with the value, before the value is compared with its bounds. -/
def Parts.Accepts (parts : Parts) (value : Int) : Prop :=
  (opensWell parts = true ∧ underscoresFollowed parts.digits = true) ∧
    signed? parts.radix (parts.digits.filter (· != '_')) = some value

theorem opensWell_iff {parts : Parts} :
    opensWell parts = true ↔
      ∃ c rest, parts.digits = c :: rest ∧ isSign c = false ∧
        (parts.announced = true ∨ c ≠ '_') := by
  unfold opensWell
  cases parts.digits with
  | nil => simp
  | cons c rest => simp

theorem signed?_cons_iff {radix : Nat} {sign : Char} {rest : List Char} {value : Int}
    (hsign : isSign sign = true) :
    signed? radix (sign :: rest) = some value ↔
      ∃ magnitude, magnitude? radix rest = some magnitude ∧
        value = if sign = '-' then -(magnitude : Int) else magnitude := by
  obtain rfl | rfl : sign = '+' ∨ sign = '-' := by simpa [isSign] using hsign
  · simp [signed?, Option.bind_eq_some_iff, @eq_comm _ value]
  · simp [signed?, Option.bind_eq_some_iff, @eq_comm _ value]

theorem signed?_iff_of_not_isSign {radix : Nat} {text : List Char} {value : Int}
    (hfirst : ∀ c ∈ text.head?, isSign c = false) :
    signed? radix text = some value ↔
      ∃ magnitude, magnitude? radix text = some magnitude ∧ value = magnitude := by
  unfold signed?
  split
  · exact absurd (hfirst '+' rfl) (by decide)
  · exact absurd (hfirst '-' rfl) (by decide)
  · simp [Option.bind_eq_some_iff, @eq_comm _ value]

theorem magnitude?_filter_iff {radix magnitude : Nat} {text : List Char} (hradix : radix ≤ 16)
    (hfollowed : underscoresFollowed text = true) :
    magnitude? radix (text.filter (· != '_')) = some magnitude ↔
      ∃ digits, Grouped radix text digits ∧ magnitude = valueOf radix digits := by
  simp only [magnitude?_eq_some_iff hradix, grouped_iff, hfollowed, true_and, and_assoc]

theorem exists_sign_of_filter {parts : Parts} {sign : Char} {others : List Char}
    (hopens : opensWell parts = true) (hfollowed : underscoresFollowed parts.digits = true)
    (hfilter : parts.digits.filter (· != '_') = sign :: others) (hsign : isSign sign = true) :
    parts.announced = true ∧ ∃ rest, parts.digits = '_' :: sign :: rest ∧
      underscoresFollowed rest = true ∧ others = rest.filter (· != '_') := by
  obtain ⟨c, tail, hdigits, hc, hannounced⟩ := opensWell_iff.mp hopens
  rw [hdigits] at hfilter hfollowed
  obtain ⟨hnext, htail⟩ := underscoresFollowed_cons_iff.mp hfollowed
  by_cases hunderscore : c = '_'
  · subst hunderscore
    obtain ⟨d, rest, rfl, hd⟩ := hnext rfl
    obtain ⟨rfl, rfl⟩ : d = sign ∧ rest.filter (· != '_') = others := by
      simpa [hd] using hfilter
    refine ⟨by simpa using hannounced, rest, hdigits, ?_, rfl⟩
    exact (underscoresFollowed_cons_iff.mp htail).2
  · have hfirst : c = sign := by
      rw [List.filter_cons_of_pos (by simpa using hunderscore)] at hfilter
      exact (List.cons.inj hfilter).1
    rw [hfirst, hsign] at hc
    contradiction

theorem grouped_or_sign_of_accepts {parts : Parts} {value : Int} (hradix : parts.radix ≤ 16)
    (haccepts : parts.Accepts value) :
    (∃ digits, Grouped parts.radix parts.digits digits ∧
      (parts.announced = true ∨ OpensBare parts.digits) ∧ value = valueOf parts.radix digits) ∨
    (parts.announced = true ∧ ∃ sign rest digits, isSign sign = true ∧
      parts.digits = '_' :: sign :: rest ∧ Grouped parts.radix rest digits ∧
      value = if sign = '-' then -(valueOf parts.radix digits : Int)
        else valueOf parts.radix digits) := by
  obtain ⟨⟨hopens, hfollowed⟩, hsigned⟩ := haccepts
  by_cases hfirst : ∀ c ∈ (parts.digits.filter (· != '_')).head?, isSign c = false
  · left
    obtain ⟨magnitude, hmagnitude, rfl⟩ := (signed?_iff_of_not_isSign hfirst).mp hsigned
    obtain ⟨digits, hgrouped, rfl⟩ := (magnitude?_filter_iff hradix hfollowed).mp hmagnitude
    obtain ⟨c, rest, hdigits, _, hannounced⟩ := opensWell_iff.mp hopens
    refine ⟨digits, hgrouped, ?_, rfl⟩
    rwa [hdigits, opensBare_cons_iff]
  · right
    obtain ⟨sign, hhead, hsign⟩ : ∃ sign, (parts.digits.filter (· != '_')).head? = some sign ∧
        isSign sign = true := by
      simpa using hfirst
    obtain ⟨others, hfilter⟩ := List.head?_eq_some_iff.mp hhead
    obtain ⟨hannounced, rest, hdigits, hrest, rfl⟩ :=
      exists_sign_of_filter hopens hfollowed hfilter hsign
    rw [hfilter] at hsigned
    obtain ⟨magnitude, hmagnitude, rfl⟩ := (signed?_cons_iff hsign).mp hsigned
    obtain ⟨digits, hgrouped, rfl⟩ := (magnitude?_filter_iff hradix hrest).mp hmagnitude
    exact ⟨hannounced, sign, rest, digits, hsign, hdigits, hgrouped, rfl⟩

theorem Grouped.exists_first {radix : Nat} {text : List Char} {digits : List Nat}
    (hgrouped : Grouped radix text digits) :
    ∃ c rest, text = c :: rest ∧ (c = '_' ∨ ∃ digit, DigitOf radix c digit) := by
  rcases hgrouped with hdigits | hdigits
  · rcases hdigits with hdigit | ⟨hdigit, _⟩ | ⟨hdigit, _⟩
    all_goals exact ⟨_, _, rfl, .inr ⟨_, hdigit⟩⟩
  · exact ⟨_, _, rfl, .inl rfl⟩

theorem opensWell_of_grouped {parts : Parts} {digits : List Nat}
    (hgrouped : Grouped parts.radix parts.digits digits)
    (hannounced : parts.announced = true ∨ OpensBare parts.digits) : opensWell parts = true := by
  obtain ⟨c, rest, hdigits, hc⟩ := hgrouped.exists_first
  rw [hdigits, opensBare_cons_iff] at hannounced
  refine opensWell_iff.mpr ⟨c, rest, hdigits, ?_, hannounced⟩
  rcases hc with rfl | ⟨digit, hdigit⟩
  · rfl
  · exact hdigit.isSign_eq_false

theorem signed?_of_grouped {radix : Nat} {text : List Char} {digits : List Nat}
    (hradix : radix ≤ 16) (hgrouped : Grouped radix text digits) :
    signed? radix (text.filter (· != '_')) = some (valueOf radix digits : Int) := by
  obtain ⟨_, hfollowed, hdigits⟩ := grouped_iff.mp hgrouped
  refine (signed?_iff_of_not_isSign ?_).mpr ⟨valueOf radix digits, ?_, rfl⟩
  · intro c hmem
    obtain ⟨rest, hfilter⟩ := List.head?_eq_some_iff.mp hmem
    rw [hfilter] at hdigits
    obtain ⟨digit, _, hdigit, _⟩ := List.forall₂_cons_left_iff.mp hdigits
    exact hdigit.isSign_eq_false
  · exact (magnitude?_filter_iff hradix hfollowed).mpr ⟨digits, hgrouped, rfl⟩

theorem accepts_of_grouped {parts : Parts} {digits : List Nat} (hradix : parts.radix ≤ 16)
    (hgrouped : Grouped parts.radix parts.digits digits)
    (hannounced : parts.announced = true ∨ OpensBare parts.digits) :
    parts.Accepts (valueOf parts.radix digits) :=
  ⟨⟨opensWell_of_grouped hgrouped hannounced, (grouped_iff.mp hgrouped).2.1⟩,
    signed?_of_grouped hradix hgrouped⟩

theorem accepts_of_literal {text : List Char} {radix : Nat} {digits : List Nat}
    (hliteral : Literal text radix digits) : (split text).Accepts (valueOf radix digits) := by
  cases hliteral with
  | @announced mark body _ _ hmark hgrouped =>
      obtain ⟨c, rest, hbody, hc⟩ := hgrouped.exists_first
      have hsplit : split (mark ++ body) = ⟨radix, true, body⟩ := by
        rw [hbody]
        apply split_of_mem hmark
        rintro rfl
        rcases hc with rfl | ⟨digit, hdigit⟩
        · decide
        · exact hdigit.notMem_of_octal
      rw [hsplit]
      exact accepts_of_grouped (radix_le_of_mem hmark) hgrouped (.inl rfl)
  | decimal hplain hseparated =>
      obtain ⟨hbare, hgrouped⟩ := separated_iff_grouped.mp hseparated
      rw [split_of_plain hplain]
      exact accepts_of_grouped (Nat.le_of_ble_eq_true rfl) hgrouped (.inr hbare)

theorem accepts_of_hidesSign {text : List Char} {value : Int} (hhidesSign : HidesSign text value) :
    (split text).Accepts value := by
  obtain ⟨mark, radix, sign, rest, digits, hmark, hsign, rfl, hgrouped, rfl⟩ := hhidesSign
  have hsignBare : sign ≠ '_' := by
    rintro rfl
    contradiction
  have hrest := (grouped_iff.mp hgrouped).2.1
  have hfilter : ('_' :: sign :: rest).filter (· != '_') = sign :: rest.filter (· != '_') := by
    simp [hsignBare]
  rw [split_of_mem hmark (fun _ => by decide)]
  refine ⟨⟨opensWell_iff.mpr ⟨'_', _, rfl, rfl, .inl rfl⟩, ?_⟩, ?_⟩
  · simp [underscoresFollowed_cons_iff, opensBare_cons_iff, hsignBare, hrest]
  · rw [hfilter, signed?_cons_iff hsign]
    refine ⟨valueOf radix digits, ?_, rfl⟩
    exact (magnitude?_filter_iff (radix_le_of_mem hmark) hrest).mpr ⟨digits, hgrouped, rfl⟩

theorem literal_or_hidesSign_of_accepts {text : List Char} {value : Int}
    (haccepts : (split text).Accepts value) :
    (∃ radix digits, Literal text radix digits ∧ value = valueOf radix digits) ∨
      HidesSign text value := by
  rcases split_cases text with ⟨hsplit, hplain⟩ | ⟨mark, radix, rest, hsplit, hmark, rfl⟩
  · rw [hsplit] at haccepts
    rcases grouped_or_sign_of_accepts (Nat.le_of_ble_eq_true rfl) haccepts with
      ⟨digits, hgrouped, hannounced, hvalue⟩ | ⟨hannounced, _⟩
    · have hbare : OpensBare text := by simpa using hannounced
      have hseparated := separated_iff_grouped.mpr ⟨hbare, hgrouped⟩
      exact .inl ⟨10, digits, .decimal hplain hseparated, hvalue⟩
    · contradiction
  · rw [hsplit] at haccepts
    rcases grouped_or_sign_of_accepts (radix_le_of_mem hmark) haccepts with
      ⟨digits, hgrouped, _, hvalue⟩ | ⟨_, sign, behind, digits, hsign, rfl, hgrouped, hvalue⟩
    · exact .inl ⟨radix, digits, .announced hmark hgrouped, hvalue⟩
    · exact .inr ⟨mark, radix, sign, behind, digits, hmark, hsign, rfl, hgrouped, hvalue⟩

/-- What is read: literals, and literals with a hidden sign. -/
theorem value?_eq_some_iff {text : String} {value : Int} :
    value? text = some value ↔
      ((∃ radix digits, Literal text.toList radix digits ∧ value = valueOf radix digits) ∨
        HidesSign text.toList value) ∧ least ≤ value ∧ value ≤ greatest := by
  have haccepts : value? text = some value ↔
      (split text.toList).Accepts value ∧ least ≤ value ∧ value ≤ greatest := by
    simp only [value?, Parts.Accepts]
    split
    · simp_all [Option.filter_eq_some_iff]
    · simp_all
  rw [haccepts]
  refine and_congr_left fun _ => ⟨literal_or_hidesSign_of_accepts, ?_⟩
  rintro (⟨radix, digits, hliteral, rfl⟩ | hhidesSign)
  · exact accepts_of_literal hliteral
  · exact accepts_of_hidesSign hhidesSign

theorem DigitOf.mem_alphabet {radix digit : Nat} {c : Char} (hdigit : DigitOf radix c digit) :
    c ∈ alphabet := by
  have hsubset : "0123456789abcdefABCDEF".toList ⊆ alphabet :=
    List.subset_append_left _ "_xXoObB".toList
  exact hsubset hdigit.mem

theorem underscore_mem_alphabet : '_' ∈ alphabet := by
  decide

theorem Separated.mem_alphabet {radix : Nat} {text : List Char} {digits : List Nat}
    (hdigits : Separated radix text digits) : ∀ c ∈ text, c ∈ alphabet := by
  induction hdigits with
  | last hdigit => simpa using hdigit.mem_alphabet
  | next hdigit _ ih => exact List.forall_mem_cons.mpr ⟨hdigit.mem_alphabet, ih⟩
  | apart hdigit _ ih =>
      refine List.forall_mem_cons.mpr ⟨hdigit.mem_alphabet, ?_⟩
      exact List.forall_mem_cons.mpr ⟨underscore_mem_alphabet, ih⟩

theorem Grouped.mem_alphabet {radix : Nat} {text : List Char} {digits : List Nat}
    (hgrouped : Grouped radix text digits) : ∀ c ∈ text, c ∈ alphabet := by
  cases hgrouped with
  | bare hdigits => exact hdigits.mem_alphabet
  | underscored hdigits =>
      exact List.forall_mem_cons.mpr ⟨underscore_mem_alphabet, hdigits.mem_alphabet⟩

theorem Literal.mem_alphabet {text : List Char} {radix : Nat} {digits : List Nat}
    (hliteral : Literal text radix digits) : ∀ c ∈ text, c ∈ alphabet := by
  cases hliteral with
  | announced hmark hgrouped =>
      have hmarks : ∀ entry ∈ announcements, entry.1 ⊆ alphabet := by decide
      exact List.forall_mem_append.mpr ⟨fun c hc => hmarks _ hmark hc, hgrouped.mem_alphabet⟩
  | decimal _ hdigits => exact hdigits.mem_alphabet

theorem Literal.unsigned {text : List Char} {radix : Nat} {digits : List Nat}
    (hliteral : Literal text radix digits) : '+' ∉ text ∧ '-' ∉ text :=
  ⟨fun hc => absurd (hliteral.mem_alphabet _ hc) (by decide),
    fun hc => absurd (hliteral.mem_alphabet _ hc) (by decide)⟩

theorem HidesSign.signed {text : List Char} {value : Int} (hhides : HidesSign text value) :
    '+' ∈ text ∨ '-' ∈ text := by
  obtain ⟨mark, radix, sign, rest, digits, _, hsign, rfl, _⟩ := hhides
  obtain rfl | rfl : sign = '+' ∨ sign = '-' := by simpa [isSign] using hsign
  · exact .inl (by simp)
  · exact .inr (by simp)

end Scriptlet.Numeral
