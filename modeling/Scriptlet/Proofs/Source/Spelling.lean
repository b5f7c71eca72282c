import Mathlib.Data.List.Chain
import Scriptlet.Proofs.Source.Layout

/-!
# Writing tokens out

Tokens are written by putting a gap in front of each of them.  A gap may be empty unless
the two lexemes around it would run together, which is decided by their kinds alone.  The
order matters, for `= ==` without its gap begins with a comparison and `== =` does not.
-/

namespace Scriptlet

def Kind.IsWord (kind : Kind) : Prop :=
  kind = .ident ∨ kind ∈ keywords.map Prod.snd

/-- Without a gap between them, the first lexeme takes something from the second. -/
def Kind.Merges (first second : Kind) : Prop :=
  (first.IsWord ∧ second.IsWord) ∨ (first = .int ∧ second = .int) ∨
    ((first = .assign ∨ first = .bang) ∧ (second = .assign ∨ second = .equal))

/-- A lexeme of this kind would go on with the character. -/
def Kind.ContinuedBy (kind : Kind) (c : Char) : Prop :=
  (kind.IsWord ∧ WordChar c) ∨ (kind = .int ∧ DigitChar c) ∨
    ((kind = .assign ∨ kind = .bang) ∧ c = '=')

/-- The text is a lexeme of the kind if nothing stands behind it. -/
def Spells (kind : Kind) (text : List Char) : Prop :=
  Munch kind text []

instance (kind : Kind) : Decidable kind.IsWord :=
  inferInstanceAs (Decidable (_ ∨ _))

instance (first second : Kind) : Decidable (first.Merges second) :=
  inferInstanceAs (Decidable (_ ∨ _))

theorem not_continuedBy_gapChar {kind : Kind} {c : Char} (hgap : GapChar c) :
    ¬ kind.ContinuedBy c := by
  obtain ⟨hword, hdigit⟩ := gapChar_separates hgap
  rintro (⟨_, hcontinues⟩ | ⟨_, hcontinues⟩ | ⟨_, rfl⟩)
  · exact hword hcontinues
  · exact hdigit hcontinues
  · exact absurd hgap (by decide)

/-- The kind behind begins with a character that continues the kind in front only if
the two run together. -/
theorem merges_of_continuedBy {first second : Kind} {c : Char} {tail : List Char}
    (hspells : Spells second (c :: tail)) (hcontinues : first.ContinuedBy c) :
    first.Merges second := by
  have hword : second.IsWord → WordChar c → first.Merges second := by
    intro hsecond hc
    rcases hcontinues with ⟨hfirst, _⟩ | ⟨_, hdigit⟩ | ⟨_, rfl⟩
    · exact .inl ⟨hfirst, hsecond⟩
    · exact absurd hdigit (not_digitChar_of_wordChar hc)
    · exact absurd hc (by decide)
  have hsign : ¬ WordChar c → ¬ DigitChar c →
      (c = '=' → second = .assign ∨ second = .equal) → first.Merges second := by
    intro hnotWord hnotDigit hsecond
    rcases hcontinues with ⟨_, hc⟩ | ⟨_, hc⟩ | ⟨hfirst, hc⟩
    · exact absurd hc hnotWord
    · exact absurd hc hnotDigit
    · exact .inr (.inr ⟨hfirst, hsecond hc⟩)
  cases hspells with
  | keyword hkeyword _ =>
      apply hword (.inr (List.mem_map_of_mem hkeyword))
      exact (keywords_word hkeyword).2.1 c List.mem_cons_self
  | name _ hrun _ _ => exact hword (.inl rfl) (hrun c List.mem_cons_self)
  | number _ hrun _ =>
      have hdigit := hrun c List.mem_cons_self
      rcases hcontinues with ⟨_, hc⟩ | ⟨hfirst, _⟩ | ⟨_, rfl⟩
      · exact absurd hdigit (not_digitChar_of_wordChar hc)
      · exact .inr (.inl ⟨hfirst, rfl⟩)
      · exact absurd hdigit (by decide)
  | comparison hfirst =>
      obtain ⟨single, hsymbol⟩ := (comparisons_symbol hfirst).1
      apply hsign (symbols_char hsymbol).1 (symbols_char hsymbol).2.1
      rintro rfl
      exact .inr (by simpa [comparisons] using hfirst)
  | symbol hsymbol _ =>
      apply hsign (symbols_char hsymbol).1 (symbols_char hsymbol).2.1
      rintro rfl
      exact .inl (by simpa [symbols] using hsymbol)
  | illegal hnotWord hnotDigit _ hsymbol =>
      apply hsign hnotWord hnotDigit
      rintro rfl
      exact absurd (by decide) (hsymbol .assign)

theorem Spells.munch {kind : Kind} {text behind : List Char} (hspells : Spells kind text)
    (hbehind : ∀ c ∈ behind.head?, ¬ kind.ContinuedBy c) : Munch kind text behind := by
  cases hspells with
  | keyword hkeyword _ =>
      apply Munch.keyword hkeyword
      intro c hmem hword
      exact hbehind c hmem (.inl ⟨.inr (List.mem_map_of_mem hkeyword), hword⟩)
  | name hne hrun hkeyword _ =>
      apply Munch.name hne hrun hkeyword
      intro c hmem hword
      exact hbehind c hmem (.inl ⟨.inl rfl, hword⟩)
  | number hne hrun _ =>
      apply Munch.number hne hrun
      intro c hmem hdigit
      exact hbehind c hmem (.inr (.inl ⟨rfl, hdigit⟩))
  | comparison hfirst => exact .comparison hfirst
  | symbol hsymbol _ =>
      apply Munch.symbol hsymbol
      intro hc hhead
      refine hbehind '=' hhead (.inr (.inr ⟨?_, rfl⟩))
      rcases hc with rfl | rfl
      · exact .inl (by simpa [symbols] using hsymbol)
      · exact .inr (by simpa [symbols] using hsymbol)
  | illegal hword hdigit hgap hsymbol => exact .illegal hword hdigit hgap hsymbol

theorem takeWhile_run {p : Char → Bool} {run behind : List Char} (hrun : ∀ c ∈ run, p c = true)
    (hbehind : ∀ c ∈ behind.head?, p c = false) : (run ++ behind).takeWhile p = run := by
  rw [List.takeWhile_append_of_pos hrun]
  cases behind with
  | nil => simp
  | cons c cs => simp [hbehind c rfl]

theorem dropWhile_run {p : Char → Bool} {run behind : List Char} (hrun : ∀ c ∈ run, p c = true)
    (hbehind : ∀ c ∈ behind.head?, p c = false) : (run ++ behind).dropWhile p = behind := by
  rw [List.dropWhile_append_of_pos hrun]
  cases behind with
  | nil => simp
  | cons c cs => simp [hbehind c rfl]

theorem isLetter_eq_false {c : Char} (hword : ¬ WordChar c) : isLetter c = false := by
  rwa [← isLetter_iff, Bool.not_eq_true] at hword

theorem isDigit_eq_false {c : Char} (hdigit : ¬ DigitChar c) : c.isDigit = false := by
  rwa [← isDigit_iff, Bool.not_eq_true] at hdigit

theorem longest_of_word {c : Char} {tail behind : List Char}
    (hrun : ∀ d ∈ c :: tail, WordChar d) (hbehind : ∀ d ∈ behind.head?, ¬ WordChar d) :
    Lexeme.longest c (tail ++ behind) = ⟨wordKind (c :: tail), c :: tail, behind⟩ := by
  have hletters : ∀ d ∈ tail, isLetter d = true := by
    intro d hmem
    exact isLetter_iff.mpr (hrun d (List.mem_cons_of_mem c hmem))
  have hstop : ∀ d ∈ behind.head?, isLetter d = false := by
    intro d hmem
    exact isLetter_eq_false (hbehind d hmem)
  unfold Lexeme.longest
  rw [if_pos (isLetter_iff.mpr (hrun c List.mem_cons_self)), takeWhile_run hletters hstop,
    dropWhile_run hletters hstop]

theorem longest_of_symbol {c : Char} {behind : List Char} (hword : ¬ WordChar c)
    (hdigit : ¬ DigitChar c) (hbehind : c = '=' ∨ c = '!' → behind.head? ≠ some '=') :
    Lexeme.longest c behind = ⟨symbolKind c, [c], behind⟩ := by
  simp only [Lexeme.longest, isLetter_eq_false hword, isDigit_eq_false hdigit, Bool.false_eq_true,
    if_false]
  split
  · exact absurd rfl (hbehind (.inl rfl))
  · exact absurd rfl (hbehind (.inr rfl))
  · rfl

theorem wordKind_of_mem {text : List Char} {kind : Kind} (hkeyword : (text, kind) ∈ keywords) :
    wordKind text = kind := by
  simp only [keywords, List.mem_cons, Prod.mk.injEq, List.not_mem_nil, or_false] at hkeyword
  rcases hkeyword with ⟨rfl, rfl⟩ | ⟨rfl, rfl⟩ | ⟨rfl, rfl⟩ | ⟨rfl, rfl⟩ | ⟨rfl, rfl⟩ |
    ⟨rfl, rfl⟩ | ⟨rfl, rfl⟩ <;> decide

theorem symbolKind_of_mem {c : Char} {kind : Kind} (hsymbol : (c, kind) ∈ symbols) :
    symbolKind c = kind := by
  have hall : symbols.all (fun entry => symbolKind entry.1 = entry.2) = true := by decide
  simpa using List.all_eq_true.mp hall _ hsymbol

/-- The converse of `munch_longest`. -/
theorem longest_of_munch {kind : Kind} {c : Char} {tail behind : List Char}
    (hmunch : Munch kind (c :: tail) behind) :
    Lexeme.longest c (tail ++ behind) = ⟨kind, c :: tail, behind⟩ := by
  cases hmunch with
  | keyword hkeyword hbehind =>
      rw [longest_of_word (keywords_word hkeyword).2.1 hbehind, wordKind_of_mem hkeyword]
  | name _ hrun hkeyword hbehind =>
      have hkind : wordKind (c :: tail) = .ident := by
        rcases wordKind_keyword_or_ident (c :: tail) with hmem | hident
        · exact absurd hmem (hkeyword _)
        · exact hident.1
      rw [longest_of_word hrun hbehind, hkind]
  | number _ hrun hbehind =>
      have hdigit := hrun c List.mem_cons_self
      have hletter : ¬ isLetter c = true := by
        intro hletter
        exact not_digitChar_of_wordChar (isLetter_iff.mp hletter) hdigit
      have hdigits : ∀ d ∈ tail, d.isDigit = true := by
        intro d hmem
        exact isDigit_iff.mpr (hrun d (List.mem_cons_of_mem c hmem))
      have hstop : ∀ d ∈ behind.head?, d.isDigit = false := by
        intro d hmem
        exact isDigit_eq_false (hbehind d hmem)
      unfold Lexeme.longest
      rw [if_neg hletter, if_pos (isDigit_iff.mpr hdigit), takeWhile_run hdigits hstop,
        dropWhile_run hdigits hstop]
  | comparison hfirst =>
      simp only [comparisons, List.mem_cons, Prod.mk.injEq, List.not_mem_nil, or_false] at hfirst
      rcases hfirst with ⟨rfl, rfl⟩ | ⟨rfl, rfl⟩ <;> rfl
  | symbol hsymbol hbehind =>
      rw [List.nil_append, longest_of_symbol (symbols_char hsymbol).1 (symbols_char hsymbol).2.1
        hbehind, symbolKind_of_mem hsymbol]
  | illegal hword hdigit _ hsymbol =>
      have hbehind : c = '=' ∨ c = '!' → behind.head? ≠ some '=' := by
        rintro (rfl | rfl)
        · exact absurd (by decide) (hsymbol .assign)
        · exact absurd (by decide) (hsymbol .bang)
      have hkind : symbolKind c = .illegal := by
        rcases symbolKind_symbol_or_illegal c with hmem | hillegal
        · exact absurd hmem (hsymbol _)
        · exact hillegal.1
      rw [List.nil_append, longest_of_symbol hword hdigit hbehind, hkind]

namespace Source

theorem next?_of_munch {gap behind : List Char} {kind : Kind} {literal : String}
    (hgap : ∀ c ∈ gap, GapChar c) (hmunch : Munch kind literal.toList behind) (line : Nat) :
    (⟨gap ++ literal.toList ++ behind, line⟩ : Source).next? =
      some (⟨kind, literal, line + gap.count '\n'⟩, ⟨behind, line + gap.count '\n'⟩) := by
  obtain ⟨c, tail, htext⟩ := List.exists_cons_of_ne_nil hmunch.text_ne_nil
  have hgaps : ∀ d ∈ gap, isGap d = true := fun d hmem => isGap_iff.mpr (hgap d hmem)
  have hstop : ∀ d ∈ (literal.toList ++ behind).head?, isGap d = false := by
    intro d hmem
    rw [htext] at hmem
    cases hmem
    have hnot := hmunch.not_gapChar c (by simp [htext])
    rwa [← isGap_iff, Bool.not_eq_true] at hnot
  have hskip : (⟨gap ++ literal.toList ++ behind, line⟩ : Source).skipGap =
      ⟨c :: (tail ++ behind), line + gap.count '\n'⟩ := by
    rw [skipGap, List.append_assoc, takeWhile_run hgaps hstop, dropWhile_run hgaps hstop, htext,
      List.cons_append]
  have hliteral : String.ofList (c :: tail) = literal := by
    rw [← htext, String.ofList_toList]
  rw [htext] at hmunch
  simp only [next?, hskip, longest_of_munch hmunch, Lexeme.token, hliteral]

end Source

/-! ## Written tokens -/

/-- A kind and a text to be written behind a gap. -/
structure Writing where
  gap : List Char
  kind : Kind
  literal : String

def Writing.text (writing : Writing) : List Char :=
  writing.gap ++ writing.literal.toList

/-- The writings may stand one behind the other, with the last gap at the end. -/
structure Admissible (writings : List Writing) (last : List Char) : Prop where
  gaps : ∀ writing ∈ writings, ∀ c ∈ writing.gap, GapChar c
  last_gap : ∀ c ∈ last, GapChar c
  spelled : ∀ writing ∈ writings, Spells writing.kind writing.literal.toList
  apart : writings.IsChain fun first second =>
    first.kind.Merges second.kind → second.gap ≠ []

namespace Admissible

variable {writing : Writing} {writings : List Writing} {last : List Char}

theorem tail (hadmissible : Admissible (writing :: writings) last) : Admissible writings last where
  gaps other hmem := hadmissible.gaps other (List.mem_cons_of_mem _ hmem)
  last_gap := hadmissible.last_gap
  spelled other hmem := hadmissible.spelled other (List.mem_cons_of_mem _ hmem)
  apart := hadmissible.apart.tail

theorem not_continuedBy (hadmissible : Admissible (writing :: writings) last) :
    ∀ c ∈ (writings.flatMap Writing.text ++ last).head?, ¬ writing.kind.ContinuedBy c := by
  intro c hmem
  cases writings with
  | nil =>
      have hlast : c ∈ last := List.mem_of_mem_head? hmem
      exact not_continuedBy_gapChar (hadmissible.last_gap c hlast)
  | cons next others =>
      have hspells := hadmissible.spelled next (by simp)
      have happart := (List.isChain_cons_cons.mp hadmissible.apart).1
      rw [List.flatMap_cons, Writing.text] at hmem
      cases hgap : next.gap with
      | cons d ds =>
          rw [hgap] at hmem
          cases hmem
          exact not_continuedBy_gapChar (hadmissible.gaps next (by simp) c (by simp [hgap]))
      | nil =>
          intro hcontinues
          obtain ⟨d, tail, htext⟩ := List.exists_cons_of_ne_nil hspells.text_ne_nil
          rw [hgap, htext] at hmem
          cases hmem
          rw [htext] at hspells
          exact happart (merges_of_continuedBy hspells hcontinues) hgap

theorem munch (hadmissible : Admissible (writing :: writings) last) :
    Munch writing.kind writing.literal.toList (writings.flatMap Writing.text ++ last) :=
  (hadmissible.spelled writing List.mem_cons_self).munch hadmissible.not_continuedBy

theorem count_newline (hadmissible : Admissible writings last) :
    (writings.flatMap Writing.text ++ last).count '\n' =
      (writings.flatMap Writing.gap ++ last).count '\n' := by
  induction writings with
  | nil => rfl
  | cons writing writings ih =>
      have hothers := ih hadmissible.tail
      simp only [List.flatMap_cons, Writing.text, List.append_assoc, List.count_append,
        hadmissible.munch.count_newline] at hothers ⊢
      omega

end Admissible

namespace Source

theorem tokens_writings {writings : List Writing} {last : List Char}
    (hadmissible : Admissible writings last) (line : Nat) :
    (⟨writings.flatMap Writing.text ++ last, line⟩ : Source).tokens =
      writings.mapIdx fun index writing => ⟨writing.kind, writing.literal,
        line + ((writings.take (index + 1)).flatMap Writing.gap).count '\n'⟩ := by
  induction writings generalizing line with
  | nil =>
      have hnext : (⟨last, line⟩ : Source).next? = none := by
        have hgaps : ∀ c ∈ last, isGap c = true := fun c hmem =>
          isGap_iff.mpr (hadmissible.last_gap c hmem)
        have hdrop : (last ++ []).dropWhile isGap = [] := dropWhile_run hgaps (by simp)
        rw [List.append_nil] at hdrop
        simp [next?, skipGap, hdrop]
      exact tokens_of_next?_none hnext
  | cons writing writings ih =>
      have hgap := hadmissible.gaps writing List.mem_cons_self
      have hnext := next?_of_munch hgap hadmissible.munch line
      have htext : (writing :: writings).flatMap Writing.text ++ last =
          writing.gap ++ writing.literal.toList ++ (writings.flatMap Writing.text ++ last) := by
        simp [Writing.text]
      rw [htext, tokens_of_next?_some hnext, ih hadmissible.tail, List.mapIdx_cons]
      simp [List.count_append, Nat.add_assoc]

/-- A text of admissible writings is read as the kinds and texts that were written, each on
the line that the gaps in front of it lead to, and then as the end token for ever. -/
theorem read_writings (writings : List Writing) (last : List Char)
    (hadmissible : Admissible writings last) :
    let source := ofString (String.ofList (writings.flatMap Writing.text ++ last))
    let tokens := writings.mapIdx fun index writing => (⟨writing.kind, writing.literal,
      1 + ((writings.take (index + 1)).flatMap Writing.gap).count '\n'⟩ : Token)
    source.tokens = tokens ∧
      ∀ count, source.read count = tokens[count]?.getD
        ⟨.eof, "", 1 + (writings.flatMap Writing.gap ++ last).count '\n'⟩ := by
  intro source tokens
  have hsource : source = ⟨writings.flatMap Writing.text ++ last, 1⟩ := by
    simp [source, ofString]
  have htokens : source.tokens = tokens := by
    rw [hsource]
    exact tokens_writings hadmissible 1
  refine ⟨htokens, ?_⟩
  intro count
  have hend : source.endLine = 1 + (writings.flatMap Writing.gap ++ last).count '\n' := by
    rw [hsource, endLine, hadmissible.count_newline]
  rw [read_eq, htokens, hend]
  rfl

/-- The text `let x=!==` on one line and `==7y &` on the next, cut into its lexemes. -/
def denseWritings : List Writing :=
  [⟨[], .letWord, "let"⟩, ⟨[' '], .ident, "x"⟩, ⟨[], .assign, "="⟩, ⟨[], .notEqual, "!="⟩,
    ⟨[], .assign, "="⟩, ⟨['\n'], .equal, "=="⟩, ⟨[], .int, "7"⟩, ⟨[], .ident, "y"⟩,
    ⟨[' '], .illegal, "&"⟩]

theorem denseWritings_read :
    Admissible denseWritings ['\r', '\n'] ∧
      (ofString "let x=!==\n==7y &\r\n").tokens =
        [⟨.letWord, "let", 1⟩, ⟨.ident, "x", 1⟩, ⟨.assign, "=", 1⟩, ⟨.notEqual, "!=", 1⟩,
          ⟨.assign, "=", 1⟩, ⟨.equal, "==", 2⟩, ⟨.int, "7", 2⟩, ⟨.ident, "y", 2⟩,
          ⟨.illegal, "&", 2⟩] := by
  have hkeyword : Spells .letWord "let".toList := .keyword (by decide) (by simp)
  have hname : ∀ c, WordChar c → Spells .ident [c] := by
    intro c hword
    exact .name (List.cons_ne_nil _ _) (by simpa using hword) (by simp [keywords]) (by simp)
  have hnumber : Spells .int ['7'] := .number (by simp) (by simp [DigitChar]) (by simp)
  have hillegal : Spells .illegal ['&'] :=
    .illegal (by decide) (by decide) (by decide) (by simp [symbols])
  have hassign : Spells .assign ['='] := .symbol (by decide) (by simp)
  have hadmissible : Admissible denseWritings ['\r', '\n'] := by
    constructor
    · simp [denseWritings, GapChar]
    · simp [GapChar]
    · simp only [denseWritings, List.forall_mem_cons, List.not_mem_nil, false_imp_iff,
        implies_true, and_true]
      exact ⟨hkeyword, hname 'x' (by decide), hassign, .comparison (by decide), hassign,
        .comparison (by decide), hnumber, hname 'y' (by decide), hillegal⟩
    · decide
  exact ⟨hadmissible, (read_writings denseWritings ['\r', '\n'] hadmissible).1⟩

end Source

end Scriptlet
