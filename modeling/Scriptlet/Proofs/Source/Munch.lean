import Mathlib.Data.List.TakeWhile
import Mathlib.Tactic.SplitIfs
import Scriptlet.Lexeme

/-!
# Longest lexemes

What the lexeme at a position has to be is said here without the lexer, from the
characters of the lexeme and the first character behind it.  A lexeme is followed
by nothing that would make it longer, so no lexeme at the same position is longer,
whatever kind it is of.
-/

namespace Scriptlet

def WordChar (c : Char) : Prop :=
  ('a' ≤ c ∧ c ≤ 'z') ∨ ('A' ≤ c ∧ c ≤ 'Z') ∨ c = '_'

def DigitChar (c : Char) : Prop :=
  '0' ≤ c ∧ c ≤ '9'

def GapChar (c : Char) : Prop :=
  c ∈ [' ', '\t', '\r', '\x0c', '\n']

def keywords : List (List Char × Kind) :=
  [("fn".toList, .fnWord), ("let".toList, .letWord), ("true".toList, .trueWord),
    ("false".toList, .falseWord), ("if".toList, .ifWord), ("else".toList, .elseWord),
    ("return".toList, .returnWord)]

/-- The characters that are lexemes by themselves. -/
def symbols : List (Char × Kind) :=
  [('=', .assign), ('+', .plus), ('-', .minus), ('!', .bang), ('*', .star), ('/', .slash),
    ('<', .less), ('>', .greater), (',', .comma), (';', .semicolon), ('(', .lparen),
    (')', .rparen), ('\x7b', .lbrace), ('\x7d', .rbrace)]

/-- The comparisons by their first characters; the second is the equality sign. -/
def comparisons : List (Char × Kind) :=
  [('=', .equal), ('!', .notEqual)]

/-- The lexeme at the front of `text ++ behind` is `text` and of this kind. -/
inductive Munch : Kind → List Char → List Char → Prop
  | keyword {kind : Kind} {text behind : List Char} (hkeyword : (text, kind) ∈ keywords)
      (hbehind : ∀ c ∈ behind.head?, ¬ WordChar c) : Munch kind text behind
  | name {text behind : List Char} (hne : text ≠ []) (hrun : ∀ c ∈ text, WordChar c)
      (hkeyword : ∀ kind, (text, kind) ∉ keywords)
      (hbehind : ∀ c ∈ behind.head?, ¬ WordChar c) : Munch .ident text behind
  | number {text behind : List Char} (hne : text ≠ []) (hrun : ∀ c ∈ text, DigitChar c)
      (hbehind : ∀ c ∈ behind.head?, ¬ DigitChar c) : Munch .int text behind
  | comparison {first : Char} {kind : Kind} {behind : List Char}
      (hfirst : (first, kind) ∈ comparisons) : Munch kind [first, '='] behind
  | symbol {c : Char} {kind : Kind} {behind : List Char} (hsymbol : (c, kind) ∈ symbols)
      (hbehind : c = '=' ∨ c = '!' → behind.head? ≠ some '=') : Munch kind [c] behind
  | illegal {c : Char} {behind : List Char} (hword : ¬ WordChar c) (hdigit : ¬ DigitChar c)
      (hgap : ¬ GapChar c) (hsymbol : ∀ kind, (c, kind) ∉ symbols) : Munch .illegal [c] behind

theorem isLetter_iff {c : Char} : isLetter c = true ↔ WordChar c := by
  have halpha : c.isAlpha = (decide ('A'.val ≤ c.val ∧ c.val ≤ 'Z'.val) ||
      (decide ('a'.val ≤ c.val) && decide (c.val ≤ 'z'.val))) := rfl
  simp only [isLetter, WordChar, halpha, Char.le_def, Bool.or_eq_true, Bool.and_eq_true,
    decide_eq_true_eq]
  rw [or_assoc, or_left_comm]

theorem isDigit_iff {c : Char} : c.isDigit = true ↔ DigitChar c := by
  simp [DigitChar, Char.isDigit, Char.le_def]

theorem isGap_iff {c : Char} : isGap c = true ↔ GapChar c := by
  simp [isGap, GapChar, or_assoc]

instance (c : Char) : Decidable (WordChar c) :=
  decidable_of_iff (isLetter c = true) isLetter_iff

instance (c : Char) : Decidable (DigitChar c) :=
  decidable_of_iff (c.isDigit = true) isDigit_iff

instance (c : Char) : Decidable (GapChar c) :=
  decidable_of_iff (isGap c = true) isGap_iff

theorem wordKind_keyword_or_ident (word : List Char) :
    (word, wordKind word) ∈ keywords ∨
      (wordKind word = .ident ∧ ∀ kind, (word, kind) ∉ keywords) := by
  unfold wordKind
  split_ifs <;> simp_all [keywords]

theorem symbolKind_symbol_or_illegal (c : Char) :
    (c, symbolKind c) ∈ symbols ∨
      (symbolKind c = .illegal ∧ ∀ kind, (c, kind) ∉ symbols) := by
  unfold symbolKind
  split <;> simp_all [symbols]

theorem not_of_mem_head?_dropWhile {p : Char → Bool} {text : List Char} {c : Char}
    (hmem : c ∈ (text.dropWhile p).head?) : p c = false := by
  have hhead := List.head?_dropWhile_not p text
  rw [Option.mem_def.mp hmem] at hhead
  exact hhead

/-- The lexer cuts off the lexeme that has to be there. -/
theorem munch_longest (c : Char) (cs : List Char) (hgap : ¬ GapChar c) :
    Munch (Lexeme.longest c cs).kind (Lexeme.longest c cs).text (Lexeme.longest c cs).rest := by
  unfold Lexeme.longest
  split_ifs with hletter hdigit
  · have hrun : ∀ d ∈ c :: cs.takeWhile isLetter, WordChar d := by
      intro d hmem
      rw [← isLetter_iff]
      rcases List.mem_cons.mp hmem with rfl | hmem
      · exact hletter
      · exact List.mem_takeWhile_imp hmem
    have hbehind : ∀ d ∈ (cs.dropWhile isLetter).head?, ¬ WordChar d := by
      intro d hmem
      rw [← isLetter_iff, not_of_mem_head?_dropWhile hmem]
      simp
    rcases wordKind_keyword_or_ident (c :: cs.takeWhile isLetter) with hkeyword | ⟨hkind, hname⟩
    · exact .keyword hkeyword hbehind
    · simp only [hkind]
      exact .name (List.cons_ne_nil _ _) hrun hname hbehind
  · apply Munch.number (List.cons_ne_nil _ _)
    · intro d hmem
      rw [← isDigit_iff]
      rcases List.mem_cons.mp hmem with rfl | hmem
      · exact hdigit
      · exact List.mem_takeWhile_imp hmem
    · intro d hmem
      rw [← isDigit_iff, not_of_mem_head?_dropWhile hmem]
      simp
  · split
    · exact .comparison (by simp [comparisons])
    · exact .comparison (by simp [comparisons])
    · rename_i hequal hbang
      rcases symbolKind_symbol_or_illegal c with hsymbol | ⟨hkind, hsymbol⟩
      · apply Munch.symbol hsymbol
        intro hfirst hnext
        obtain ⟨tail, hcons⟩ := List.head?_eq_some_iff.mp hnext
        rcases hfirst with hfirst | hfirst
        · exact hequal tail hfirst hcons
        · exact hbang tail hfirst hcons
      · rw [isLetter_iff] at hletter
        rw [isDigit_iff] at hdigit
        simp only [hkind]
        exact .illegal hletter hdigit hgap hsymbol

/-! ## What a lexeme looks like -/

theorem gapChar_separates {c : Char} (hgap : GapChar c) : ¬ WordChar c ∧ ¬ DigitChar c := by
  simp only [GapChar, List.mem_cons, List.not_mem_nil, or_false] at hgap
  rcases hgap with rfl | rfl | rfl | rfl | rfl <;> decide

theorem not_digitChar_of_wordChar {c : Char} (hword : WordChar c) : ¬ DigitChar c := by
  intro hdigit
  simp only [WordChar, DigitChar, Char.le_def, UInt32.le_iff_toNat_le] at hword hdigit
  have hupper : 'A'.val.toNat = 65 := rfl
  have hlower : 'a'.val.toNat = 97 := rfl
  have hnine : '9'.val.toNat = 57 := rfl
  rcases hword with hword | hword | rfl
  · omega
  · omega
  · revert hdigit
    decide

theorem keywords_word {text : List Char} {kind : Kind} (hkeyword : (text, kind) ∈ keywords) :
    text ≠ [] ∧ (∀ c ∈ text, WordChar c) ∧ kind ≠ .eof := by
  have hall : keywords.all (fun entry => !entry.1.isEmpty && entry.1.all isLetter &&
      entry.2 != .eof) = true := by decide
  simpa [isLetter_iff, and_assoc] using List.all_eq_true.mp hall _ hkeyword

theorem symbols_char {c : Char} {kind : Kind} (hsymbol : (c, kind) ∈ symbols) :
    ¬ WordChar c ∧ ¬ DigitChar c ∧ ¬ GapChar c ∧ kind ≠ .eof := by
  have hall : symbols.all (fun entry => !isLetter entry.1 && !entry.1.isDigit &&
      !isGap entry.1 && entry.2 != .eof) = true := by decide
  rw [← isLetter_iff, ← isDigit_iff, ← isGap_iff]
  simpa [and_assoc] using List.all_eq_true.mp hall _ hsymbol

theorem comparisons_symbol {c : Char} {kind : Kind} (hfirst : (c, kind) ∈ comparisons) :
    (∃ single, (c, single) ∈ symbols) ∧ kind ≠ .eof := by
  simp only [comparisons, List.mem_cons, Prod.mk.injEq, List.not_mem_nil, or_false] at hfirst
  rcases hfirst with ⟨rfl, rfl⟩ | ⟨rfl, rfl⟩
  · exact ⟨⟨.assign, by decide⟩, by decide⟩
  · exact ⟨⟨.bang, by decide⟩, by decide⟩

namespace Munch

variable {kind : Kind} {text behind : List Char}

theorem text_ne_nil (hmunch : Munch kind text behind) : text ≠ [] := by
  cases hmunch with
  | keyword hkeyword _ => exact (keywords_word hkeyword).1
  | name hne _ _ _ => exact hne
  | number hne _ _ => exact hne
  | comparison | symbol | illegal => exact List.cons_ne_nil _ _

theorem kind_ne_eof (hmunch : Munch kind text behind) : kind ≠ .eof := by
  cases hmunch with
  | keyword hkeyword _ => exact (keywords_word hkeyword).2.2
  | comparison hfirst => exact (comparisons_symbol hfirst).2
  | symbol hsymbol _ => exact (symbols_char hsymbol).2.2.2
  | name | number | illegal => decide

theorem digitChar_of_int (hmunch : Munch .int text behind) : ∀ c ∈ text, DigitChar c := by
  cases hmunch with
  | keyword hkeyword _ => simp [keywords] at hkeyword
  | number _ hrun _ => exact hrun
  | comparison hfirst => simp [comparisons] at hfirst
  | symbol hsymbol _ => simp [symbols] at hsymbol

theorem not_gapChar (hmunch : Munch kind text behind) : ∀ c ∈ text, ¬ GapChar c := by
  intro c hmem hgap
  obtain ⟨hword, hdigit⟩ := gapChar_separates hgap
  cases hmunch with
  | keyword hkeyword _ => exact hword ((keywords_word hkeyword).2.1 c hmem)
  | name _ hrun _ _ => exact hword (hrun c hmem)
  | number _ hrun _ => exact hdigit (hrun c hmem)
  | comparison hfirst =>
      obtain ⟨single, hsymbol⟩ := (comparisons_symbol hfirst).1
      simp only [List.mem_cons, List.not_mem_nil, or_false] at hmem
      rcases hmem with rfl | rfl
      · exact (symbols_char hsymbol).2.2.1 hgap
      · exact absurd hgap (by decide)
  | symbol hsymbol _ =>
      rw [List.mem_singleton.mp hmem] at hgap
      exact (symbols_char hsymbol).2.2.1 hgap
  | illegal _ _ hnot _ =>
      rw [List.mem_singleton.mp hmem] at hgap
      exact hnot hgap

theorem behind_of_wordChar {c : Char} {tail : List Char} (hmunch : Munch kind (c :: tail) behind)
    (hword : WordChar c) : ∀ d ∈ behind.head?, ¬ WordChar d := by
  cases hmunch with
  | keyword _ hbehind => exact hbehind
  | name _ _ _ hbehind => exact hbehind
  | number _ hrun _ =>
      exact absurd (hrun c List.mem_cons_self) (not_digitChar_of_wordChar hword)
  | comparison hfirst =>
      obtain ⟨single, hsymbol⟩ := (comparisons_symbol hfirst).1
      exact absurd hword (symbols_char hsymbol).1
  | symbol hsymbol _ => exact absurd hword (symbols_char hsymbol).1
  | illegal hnot _ _ _ => exact absurd hword hnot

theorem behind_of_digitChar {c : Char} {tail : List Char} (hmunch : Munch kind (c :: tail) behind)
    (hdigit : DigitChar c) : ∀ d ∈ behind.head?, ¬ DigitChar d := by
  cases hmunch with
  | keyword hkeyword _ =>
      have hword := (keywords_word hkeyword).2.1 c List.mem_cons_self
      exact absurd hdigit (not_digitChar_of_wordChar hword)
  | name _ hrun _ _ =>
      exact absurd hdigit (not_digitChar_of_wordChar (hrun c List.mem_cons_self))
  | number _ _ hbehind => exact hbehind
  | comparison hfirst =>
      obtain ⟨single, hsymbol⟩ := (comparisons_symbol hfirst).1
      exact absurd hdigit (symbols_char hsymbol).2.1
  | symbol hsymbol _ => exact absurd hdigit (symbols_char hsymbol).2.1
  | illegal _ hnot _ _ => exact absurd hdigit hnot

theorem behind_of_comparison {c : Char} {comparison : Kind} (hmunch : Munch kind [c] behind)
    (hfirst : (c, comparison) ∈ comparisons) : behind.head? ≠ some '=' := by
  obtain ⟨single, hsingle⟩ := (comparisons_symbol hfirst).1
  have hchar := symbols_char hsingle
  cases hmunch with
  | keyword hkeyword _ =>
      exact absurd ((keywords_word hkeyword).2.1 c List.mem_cons_self) hchar.1
  | name _ hrun _ _ => exact absurd (hrun c List.mem_cons_self) hchar.1
  | number _ hrun _ => exact absurd (hrun c List.mem_cons_self) hchar.2.1
  | symbol _ hbehind =>
      apply hbehind
      simp only [comparisons, List.mem_cons, Prod.mk.injEq, List.not_mem_nil, or_false] at hfirst
      exact hfirst.imp And.left And.left
  | illegal _ _ _ hsymbol => exact absurd hsingle (hsymbol single)

theorem not_extends {other : Kind} {d : Char} {more rest beyond : List Char}
    (hmunch : Munch kind text (d :: rest)) : ¬ Munch other (text ++ d :: more) beyond := by
  intro hother
  obtain ⟨c, tail, rfl⟩ := List.exists_cons_of_ne_nil hmunch.text_ne_nil
  have hfirst : c ∈ c :: tail ++ d :: more := by simp
  have hsecond : d ∈ c :: tail ++ d :: more := by simp
  generalize hlonger : c :: tail ++ d :: more = longer at hother hfirst hsecond
  cases hother with
  | keyword hkeyword _ =>
      have hrun := (keywords_word hkeyword).2.1
      exact hmunch.behind_of_wordChar (hrun c hfirst) d rfl (hrun d hsecond)
  | name _ hrun _ _ => exact hmunch.behind_of_wordChar (hrun c hfirst) d rfl (hrun d hsecond)
  | number _ hrun _ => exact hmunch.behind_of_digitChar (hrun c hfirst) d rfl (hrun d hsecond)
  | @comparison first _ _ hcomparison =>
      have htail : tail = [] := by
        have hlength := congrArg List.length hlonger
        simp only [List.length_append, List.length_cons, List.length_nil] at hlength
        exact List.length_eq_zero_iff.mp (by omega)
      subst htail
      simp only [List.cons_append, List.nil_append, List.cons.injEq] at hlonger
      obtain ⟨rfl, rfl, _⟩ := hlonger
      exact hmunch.behind_of_comparison hcomparison rfl
  | symbol | illegal => simp at hlonger

theorem length_le {other : Kind} {longer rest beyond : List Char} (hmunch : Munch kind text behind)
    (hother : Munch other longer beyond) (hposition : longer ++ rest = text ++ behind) :
    longer.length ≤ text.length := by
  rcases List.append_eq_append_iff.mp hposition with ⟨more, htext, _⟩ | ⟨more, hlonger, hbehind⟩
  · rw [htext, List.length_append]
    omega
  · cases more with
    | nil => simp [hlonger]
    | cons d more =>
        rw [hlonger] at hother
        rw [hbehind] at hmunch
        exact absurd hother hmunch.not_extends

end Munch

end Scriptlet
