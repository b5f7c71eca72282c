import Scriptlet.Text.Quoted

/-!
# Quoted text can be read back

A character inside quotes has one of three forms: a backslash and a letter, a code point
between braces, or the character itself.  No form begins another one.  A backslash opens
the first two only, the letter `u` the second only, and a closing brace ends the digits of
a code point.  So the forms can be taken off a text one by one up to the closing quote,
whatever characters the text holds and whatever stands behind the quote.
-/

namespace Scriptlet.Text

/-- Where a mark first stands cuts a list in one way only. -/
theorem append_cons_inj {α : Type} {mark : α} {first second rest more : List α}
    (hfirst : mark ∉ first) (hsecond : mark ∉ second)
    (heq : first ++ mark :: rest = second ++ mark :: more) : first = second ∧ rest = more := by
  induction first generalizing second with
  | nil =>
      cases second with
      | nil => exact ⟨rfl, (List.cons.inj heq).2⟩
      | cons other second =>
          obtain ⟨rfl, _⟩ := List.cons.inj heq
          exact absurd List.mem_cons_self hsecond
  | cons other first ih =>
      cases second with
      | nil =>
          obtain ⟨rfl, _⟩ := List.cons.inj heq
          exact absurd List.mem_cons_self hfirst
      | cons another second =>
          obtain ⟨rfl, htail⟩ := List.cons.inj heq
          obtain ⟨rfl, hrest⟩ := ih (fun hmem => hfirst (List.mem_cons_of_mem _ hmem))
            (fun hmem => hsecond (List.mem_cons_of_mem _ hmem)) htail
          exact ⟨rfl, hrest⟩

/-- What stands in front of a gap ends at the first character of the gap. -/
theorem append_gap_inj {gap first second rest more : String} {mark : Char}
    (hgap : gap.toList.head? = some mark)
    (hfirst : mark ∉ first.toList) (hsecond : mark ∉ second.toList)
    (heq : first ++ (gap ++ rest) = second ++ (gap ++ more)) : first = second ∧ rest = more := by
  obtain ⟨tail, htail⟩ := List.head?_eq_some_iff.mp hgap
  have hlist := congrArg String.toList heq
  simp only [String.toList_append, htail, List.cons_append] at hlist
  obtain ⟨htext, hrest⟩ := append_cons_inj hfirst hsecond hlist
  exact ⟨String.toList_injective htext, String.toList_injective (List.append_cancel_left hrest)⟩

theorem digitChar_inj {first second : Nat} (hfirst : first < 16) (hsecond : second < 16)
    (heq : first.digitChar = second.digitChar) : first = second := by
  have hall : ∀ first < 16, ∀ second < 16,
      first.digitChar = second.digitChar → first = second := by decide
  exact hall first hfirst second hsecond heq

theorem toDigits_inj {base first second : Nat} (hbase : 1 < base) (hsmall : base ≤ 16)
    (heq : Nat.toDigits base first = Nat.toDigits base second) : first = second := by
  induction first using Nat.strongRecOn generalizing second with
  | ind first ih =>
      -- Equal lengths put both numbers on the same side of the base.
      have hshort : first < base ↔ second < base := by
        have hone := fun number =>
          Nat.length_toDigits_le_iff (b := base) (n := number) hbase Nat.one_pos
        simp only [Nat.pow_one] at hone
        rw [← hone first, ← hone second, heq]
      by_cases hfirst : first < base
      · have hsecond := hshort.mp hfirst
        rw [Nat.toDigits_of_lt_base hfirst, Nat.toDigits_of_lt_base hsecond] at heq
        exact digitChar_inj (by omega) (by omega) (List.cons.inj heq).1
      · have hsecond := mt hshort.mpr hfirst
        rw [Nat.toDigits_of_base_le hbase (Nat.not_lt.mp hfirst),
          Nat.toDigits_of_base_le hbase (Nat.not_lt.mp hsecond)] at heq
        obtain ⟨hinit, hlast⟩ := List.append_inj' heq rfl
        have hdigit : ∀ number, number % base < 16 := fun number =>
          Nat.lt_of_lt_of_le (Nat.mod_lt number (by omega)) hsmall
        have hdiv : first / base = second / base :=
          ih (first / base) (Nat.div_lt_self (by omega) hbase) hinit
        have hmod : first % base = second % base :=
          digitChar_inj (hdigit first) (hdigit second) (List.cons.inj hlast).1
        rw [← Nat.div_add_mod first base, ← Nat.div_add_mod second base, hdiv, hmod]

theorem notMem_toDigits {base : Nat} {c : Char} (hbase : 1 < base)
    (hc : ∀ digit : Nat, digit.digitChar ≠ c) (number : Nat) : c ∉ Nat.toDigits base number := by
  induction number using Nat.strongRecOn with
  | ind number ih =>
      rw [Nat.toDigits_eq_if hbase]
      split
      next => simpa using (hc number).symm
      next =>
        have hinit := ih (number / base) (Nat.div_lt_self (by omega) hbase)
        simpa [hinit] using (hc (number % base)).symm

theorem notMem_toString {c : Char} (hc : ∀ digit : Nat, digit.digitChar ≠ c)
    (number : Nat) : c ∉ (toString number).toList := by
  rw [Nat.toString_eq_ofList_toDigits, String.toList_ofList]
  exact notMem_toDigits (by decide) hc number

/-! ## The forms of a character -/

/-- The characters that are written as a backslash and a letter. -/
def shortForms : List (Char × Char) :=
  [('\x00', '0'), ('\t', 't'), ('\r', 'r'), ('\n', 'n'), ('"', '"'), ('\\', '\\')]

/-- The character may have this form inside quotes. -/
inductive Escaped : Char → List Char → Prop
  | short {c letter : Char} (hform : (c, letter) ∈ shortForms) : Escaped c ['\\', letter]
  | coded (c : Char) : Escaped c (codeEscape c)
  | plain {c : Char} (hfeed : c ≠ '\n') (hquote : c ≠ '"') (hback : c ≠ '\\') : Escaped c [c]

theorem escaped_escape (c : Char) : Escaped c (escape c) := by
  unfold escape
  split
  case h_7 _ _ _ hfeed hquote hback =>
    split
    · exact .coded c
    · exact .plain hfeed hquote hback
  all_goals exact .short (by decide)

theorem eq_of_mem_shortForms {c d letter : Char} (hc : (c, letter) ∈ shortForms)
    (hd : (d, letter) ∈ shortForms) : c = d := by
  simp only [shortForms, List.mem_cons, Prod.mk.injEq, List.not_mem_nil, or_false] at hc hd
  grind

theorem codeEscape_append_inj {c d : Char} {rest more : List Char}
    (heq : codeEscape c ++ rest = codeEscape d ++ more) : c = d ∧ rest = more := by
  simp only [codeEscape, List.append_assoc, List.cons_append, List.nil_append, List.cons.injEq,
    true_and] at heq
  have hbrace := notMem_toDigits (by decide : 1 < 16) fun _ => Nat.digitChar_ne '\x7d' (by decide)
  obtain ⟨hdigits, hrest⟩ := append_cons_inj (hbrace c.toNat) (hbrace d.toNat) heq
  exact ⟨Char.toNat_inj.mp (toDigits_inj (by decide) (by decide) hdigits), hrest⟩

namespace Escaped

variable {c d : Char} {form other rest more : List Char}

/-- No form of a character begins a form of another one. -/
theorem append_inj (hc : Escaped c form) (hd : Escaped d other)
    (heq : form ++ rest = other ++ more) : c = d ∧ rest = more := by
  -- The first character sets the plain form apart, the second one a code point.
  cases hc with
  | short hform =>
      cases hd with
      | short hother =>
          obtain ⟨rfl, hrest⟩ := List.cons.inj (List.cons.inj heq).2
          exact ⟨eq_of_mem_shortForms hform hother, hrest⟩
      | coded =>
          obtain ⟨rfl, _⟩ := List.cons.inj (List.cons.inj heq).2
          simp [shortForms] at hform
      | plain _ _ hback => exact absurd (List.cons.inj heq).1.symm hback
  | coded =>
      cases hd with
      | short hother =>
          obtain ⟨rfl, _⟩ := List.cons.inj (List.cons.inj heq).2
          simp [shortForms] at hother
      | coded => exact codeEscape_append_inj heq
      | plain _ _ hback => exact absurd (List.cons.inj heq).1.symm hback
  | plain _ _ hback =>
      cases hd with
      | short => exact absurd (List.cons.inj heq).1 hback
      | coded => exact absurd (List.cons.inj heq).1 hback
      | plain => exact List.cons.inj heq

theorem append_ne_quote_cons (hc : Escaped c form) : form ++ rest ≠ '"' :: more := by
  intro heq
  cases hc with
  | short => exact absurd (List.cons.inj heq).1 (by decide)
  | coded => exact absurd (List.cons.inj heq).1 (by decide)
  | plain _ hquote _ => exact hquote (List.cons.inj heq).1

theorem newline_notMem (hc : Escaped c form) : '\n' ∉ form := by
  cases hc with
  | @short letter hform =>
      have hletter : letter ≠ '\n' := by
        rintro rfl
        simp [shortForms] at hform
      simpa using hletter.symm
  | coded =>
      have hdigits := notMem_toDigits (by decide : 1 < 16)
        (fun _ => Nat.digitChar_ne '\n' (by decide)) c.toNat
      simpa [codeEscape] using hdigits
  | plain hfeed => simpa using hfeed.symm

end Escaped

/-- The closing quote is the first one that no form takes up. -/
theorem flatMap_escape_inj {first second rest more : List Char}
    (heq : first.flatMap escape ++ '"' :: rest = second.flatMap escape ++ '"' :: more) :
    first = second ∧ rest = more := by
  induction first generalizing second with
  | nil =>
      cases second with
      | nil => exact ⟨rfl, (List.cons.inj heq).2⟩
      | cons d second =>
          rw [List.flatMap_cons, List.append_assoc] at heq
          exact absurd heq.symm (escaped_escape d).append_ne_quote_cons
  | cons c first ih =>
      cases second with
      | nil =>
          rw [List.flatMap_cons, List.append_assoc] at heq
          exact absurd heq (escaped_escape c).append_ne_quote_cons
      | cons d second =>
          rw [List.flatMap_cons, List.flatMap_cons, List.append_assoc, List.append_assoc] at heq
          obtain ⟨rfl, htail⟩ := (escaped_escape c).append_inj (escaped_escape d) heq
          obtain ⟨rfl, hrest⟩ := ih htail
          exact ⟨rfl, hrest⟩

theorem quote_append_inj {first second rest more : String}
    (heq : quote first ++ rest = quote second ++ more) : first = second ∧ rest = more := by
  have hlist := congrArg String.toList heq
  simp only [quote, String.toList_append, String.toList_ofList, List.cons_append,
    List.append_assoc, List.nil_append] at hlist
  obtain ⟨htext, hrest⟩ := flatMap_escape_inj (List.cons.inj hlist).2
  exact ⟨String.toList_injective htext, String.toList_injective hrest⟩

theorem newline_notMem_quote (text : String) : '\n' ∉ (quote text).toList := by
  have hforms : '\n' ∉ text.toList.flatMap escape := by
    intro hmem
    obtain ⟨c, _, hfeed⟩ := List.mem_flatMap.mp hmem
    exact (escaped_escape c).newline_notMem hfeed
  simpa [quote] using hforms

end Scriptlet.Text
