import Scriptlet.Text.Bytes

/-!
# The lines of an input

Where lines end, said without the function that cuts an input into them.  A line
holds no line feed, so the first line feed of an input ends its first line and
there is one way only to split an input.

A line is text exactly if it consists of the bytes of a text, and that text is
then the only one.
-/

namespace Scriptlet.Text

/-- The input consists of these lines. -/
inductive Splits : List UInt8 → List (List UInt8) → Prop where
  | nil : Splits [] []
  /-- A last line that ends with the input keeps its carriage return. -/
  | unfinished {line : List UInt8} :
      lineFeed ∉ line → line ≠ [] → Splits line [line]
  | fed {line rest : List UInt8} {lines : List (List UInt8)} :
      lineFeed ∉ line → line.getLast? ≠ some carriageReturn → Splits rest lines →
      Splits (line ++ lineFeed :: rest) (line :: lines)
  | returned {line rest : List UInt8} {lines : List (List UInt8)} :
      lineFeed ∉ line → Splits rest lines →
      Splits (line ++ carriageReturn :: lineFeed :: rest) (line :: lines)

theorem lines_of_ne_nil {input : List UInt8} (hne : input ≠ []) :
    lines input =
      match input.dropWhile (· ≠ lineFeed) with
      | [] => [input]
      | _ :: rest => dropReturn (input.takeWhile (· ≠ lineFeed)) :: lines rest := by
  cases input with
  | nil => contradiction
  | cons byte input =>
      rw [lines]
      split
      next hdrop => simp only [hdrop]
      next hdrop => simp only [hdrop]

theorem ne_lineFeed_of_mem {line : List UInt8} (hline : lineFeed ∉ line) :
    ∀ byte ∈ line, decide (byte ≠ lineFeed) = true := by
  intro byte hmem
  apply decide_eq_true
  rintro rfl
  exact hline hmem

theorem lines_of_unfinished {line : List UInt8} (hline : lineFeed ∉ line) (hne : line ≠ []) :
    lines line = [line] := by
  have hdrop : line.dropWhile (· ≠ lineFeed) = [] := by
    rw [← List.append_nil line, List.dropWhile_append_of_pos (ne_lineFeed_of_mem hline)]
    rfl
  rw [lines_of_ne_nil hne, hdrop]

theorem lines_append_lineFeed {line : List UInt8} (hline : lineFeed ∉ line)
    (rest : List UInt8) : lines (line ++ lineFeed :: rest) = dropReturn line :: lines rest := by
  have hdrop : (line ++ lineFeed :: rest).dropWhile (· ≠ lineFeed) = lineFeed :: rest := by
    rw [List.dropWhile_append_of_pos (ne_lineFeed_of_mem hline)]
    simp
  have htake : (line ++ lineFeed :: rest).takeWhile (· ≠ lineFeed) = line := by
    rw [List.takeWhile_append_of_pos (ne_lineFeed_of_mem hline)]
    simp
  rw [lines_of_ne_nil (by simp), hdrop, htake]

@[simp] theorem dropReturn_concat (line : List UInt8) :
    dropReturn (line ++ [carriageReturn]) = line := by
  simp [dropReturn]

theorem dropReturn_of_ne {line : List UInt8} (hreturn : line.getLast? ≠ some carriageReturn) :
    dropReturn line = line := by
  simp [dropReturn, hreturn]

theorem Splits.eq_lines {input : List UInt8} {parts : List (List UInt8)}
    (hsplits : Splits input parts) : parts = lines input := by
  induction hsplits with
  | nil => rw [lines]
  | unfinished hline hne => rw [lines_of_unfinished hline hne]
  | fed hline hreturn _ ih =>
      rw [lines_append_lineFeed hline, dropReturn_of_ne hreturn, ih]
  | @returned line rest _ hline _ ih =>
      have hne : lineFeed ≠ carriageReturn := by decide
      have hwhole : lineFeed ∉ line ++ [carriageReturn] := by simp [hline, hne]
      have hcut := lines_append_lineFeed hwhole rest
      rw [List.append_assoc, List.singleton_append, dropReturn_concat] at hcut
      rw [hcut, ih]

theorem Splits.append_lineFeed {line rest : List UInt8} {parts : List (List UInt8)}
    (hline : lineFeed ∉ line) (hrest : Splits rest parts) :
    Splits (line ++ lineFeed :: rest) (dropReturn line :: parts) := by
  by_cases hreturn : line.getLast? = some carriageReturn
  · obtain ⟨front, rfl⟩ := List.getLast?_eq_some_iff.mp hreturn
    rw [dropReturn_concat, List.append_assoc]
    exact .returned (fun hmem => hline (List.mem_append_left _ hmem)) hrest
  · rw [dropReturn_of_ne hreturn]
    exact .fed hline hreturn hrest

theorem splits_lines (input : List UInt8) : Splits input (lines input) := by
  induction hlength : input.length using Nat.strongRecOn generalizing input with
  | ind length ih =>
      by_cases hfeed : lineFeed ∈ input
      · obtain ⟨line, rest, rfl, hline⟩ := List.eq_append_cons_of_mem hfeed
        rw [lines_append_lineFeed hline]
        apply Splits.append_lineFeed hline
        refine ih rest.length ?_ rest rfl
        simp only [List.length_append, List.length_cons] at hlength
        omega
      · by_cases hnil : input = []
        · subst hnil
          rw [lines]
          exact .nil
        · rw [lines_of_unfinished hfeed hnil]
          exact .unfinished hfeed hnil

theorem splits_iff {input : List UInt8} {parts : List (List UInt8)} :
    Splits input parts ↔ parts = lines input := by
  constructor
  · exact Splits.eq_lines
  · rintro rfl
    exact splits_lines input

theorem Splits.lineFeed_notMem {input : List UInt8} {parts : List (List UInt8)}
    (hsplits : Splits input parts) : ∀ line ∈ parts, lineFeed ∉ line := by
  induction hsplits with
  | nil => simp
  | unfinished hline _ => simpa using hline
  | fed hline _ _ ih => simpa using ⟨hline, ih⟩
  | returned hline _ ih => simpa using ⟨hline, ih⟩

/-! ## Bytes of texts -/

theorem bytes_append (first second : String) :
    bytes (first ++ second) = bytes first ++ bytes second := by
  simp [bytes]

theorem bytes_empty : bytes "" = [] := rfl

theorem ofBytes?_eq_some_iff {line : List UInt8} {text : String} :
    ofBytes? line = some text ↔ bytes text = line := by
  have hdecode : ofBytes? line =
      if h : (ByteArray.mk line.toArray).IsValidUTF8 then some (.ofByteArray _ h) else none := rfl
  rw [hdecode]
  constructor
  · intro hsome
    split at hsome
    · obtain rfl := Option.some.inj hsome
      simp [bytes]
    · contradiction
  · rintro rfl
    have hvalid : (ByteArray.mk (bytes text).toArray).IsValidUTF8 := text.isValidUTF8
    rw [dif_pos hvalid]
    rfl

theorem ofBytes?_eq_none_iff {line : List UInt8} :
    ofBytes? line = none ↔ ∀ text, bytes text ≠ line := by
  rw [Option.eq_none_iff_forall_ne_some]
  simp only [ne_eq, ofBytes?_eq_some_iff]

theorem newline_notMem_of_lineFeed_notMem {text : String} (hline : lineFeed ∉ bytes text) :
    '\n' ∉ text.toList := by
  intro hmem
  obtain ⟨before, after, hlist⟩ := List.append_of_mem hmem
  have htext : text = String.ofList before ++ "\n" ++ String.ofList after := by
    apply String.toList_inj.mp
    simp [hlist]
  have hfeed : lineFeed ∈ bytes "\n" := by decide
  rw [htext, bytes_append, bytes_append] at hline
  simp [hfeed] at hline

theorem bytes_ofList (text : List Char) :
    bytes (String.ofList text) = text.flatMap String.utf8EncodeChar := by
  simp [bytes, List.utf8Encode]

theorem utf8EncodeChar_ascii_or_beyond (c : Char) :
    String.utf8EncodeChar c = [UInt8.ofNat c.toNat] ∧ c.toNat < 128 ∨
      ∃ first tail, String.utf8EncodeChar c = first :: tail ∧ 128 ≤ first.toNat := by
  unfold String.utf8EncodeChar
  simp only []
  split
  · exact .inl ⟨rfl, by rw [Char.toNat]; omega⟩
  · right
    have hlarge : ∀ code offset : Nat, 128 ≤ offset → code + offset < 256 →
        128 ≤ (UInt8.ofNat (code + offset)).toNat := by
      intro code offset hoffset hbyte
      rw [UInt8.toNat_ofNat_of_lt' hbyte]
      omega
    split
    · exact ⟨_, _, rfl, hlarge _ _ (by omega) (by omega)⟩
    · split
      · exact ⟨_, _, rfl, hlarge _ _ (by omega) (by omega)⟩
      · exact ⟨_, _, rfl, hlarge _ _ (by omega) (by omega)⟩

/-- A byte below 128 in front of a text is its first character. -/
theorem exists_cons_of_bytes {text : List Char} {first : UInt8} {rest : List UInt8}
    (hbytes : bytes (String.ofList text) = first :: rest) (hfirst : first.toNat < 128) :
    ∃ tail, text = Char.ofNat first.toNat :: tail ∧ rest = bytes (String.ofList tail) := by
  rw [bytes_ofList] at hbytes
  cases text with
  | nil => contradiction
  | cons c tail =>
      rw [List.flatMap_cons] at hbytes
      rcases utf8EncodeChar_ascii_or_beyond c with ⟨hencode, hcode⟩ | ⟨byte, bytes, hencode, hbyte⟩
      · rw [hencode] at hbytes
        obtain ⟨rfl, rfl⟩ := List.cons.inj hbytes
        have hbyte : (UInt8.ofNat c.toNat).toNat = c.toNat :=
          UInt8.toNat_ofNat_of_lt' (Nat.lt_trans hcode (by decide))
        rw [hbyte, Char.ofNat_toNat]
        exact ⟨tail, rfl, (bytes_ofList tail).symm⟩
      · rw [hencode] at hbytes
        obtain ⟨rfl, _⟩ := List.cons.inj hbytes
        omega

end Scriptlet.Text
