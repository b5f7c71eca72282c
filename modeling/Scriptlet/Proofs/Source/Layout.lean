import Scriptlet.Proofs.Source.Munch
import Scriptlet.Source

/-!
# The layout of a source text

A source text is its tokens with gaps before, between and behind them.  One read
takes the gap in front and one lexeme; every statement about whole texts follows
from this by induction on the tokens.  Lexemes hold no line feed, so the line
reached is decided by the gaps alone.
-/

namespace Scriptlet

/-- The token is the one that has to stand in front of `behind`. -/
structure Token.Lexed (token : Token) (behind : List Char) : Prop where
  munch : Munch token.kind token.literal.toList behind
  literal_ne_nil : token.literal.toList ≠ []
  literal_gapFree : ∀ c ∈ token.literal.toList, ¬ GapChar c
  longest : ∀ kind longer rest beyond, longer ++ rest = token.literal.toList ++ behind →
    Munch kind longer beyond → longer.length ≤ token.literal.toList.length
  kind_ne_eof : token.kind ≠ .eof

structure Piece where
  gap : List Char
  token : Token

def Piece.text (piece : Piece) : List Char :=
  piece.gap ++ piece.token.literal.toList

/-- The text consists of the pieces and the last gap, and its first line has the number
`line`. -/
structure Layout (line : Nat) (text : List Char) (pieces : List Piece) (last : List Char) :
    Prop where
  text_eq : text = pieces.flatMap Piece.text ++ last
  gaps : ∀ piece ∈ pieces, ∀ c ∈ piece.gap, GapChar c
  last_gap : ∀ c ∈ last, GapChar c
  lexed : ∀ before piece after, pieces = before ++ piece :: after →
    piece.token.Lexed (after.flatMap Piece.text ++ last)
  lines : ∀ before piece after, pieces = before ++ piece :: after →
    piece.token.line = line + (before.flatMap Piece.text ++ piece.gap).count '\n'

theorem Munch.lexed {token : Token} {behind : List Char}
    (hmunch : Munch token.kind token.literal.toList behind) : token.Lexed behind := by
  refine ⟨hmunch, hmunch.text_ne_nil, hmunch.not_gapChar, ?_, hmunch.kind_ne_eof⟩
  intro kind longer rest beyond hposition hother
  exact hmunch.length_le hother hposition

theorem Munch.count_newline {kind : Kind} {text behind : List Char}
    (hmunch : Munch kind text behind) : text.count '\n' = 0 := by
  apply List.count_eq_zero.mpr
  intro hmem
  exact hmunch.not_gapChar '\n' hmem (by decide)

namespace Layout

theorem nil {line : Nat} {gap : List Char} (hgap : ∀ c ∈ gap, GapChar c) :
    Layout line gap [] gap := by
  constructor
  · rfl
  · simp
  · exact hgap
  · simp
  · simp

theorem cons {line : Nat} {gap text last : List Char} {token : Token} {pieces : List Piece}
    (hgap : ∀ c ∈ gap, GapChar c) (hmunch : Munch token.kind token.literal.toList text)
    (hline : token.line = line + gap.count '\n') (hlayout : Layout token.line text pieces last) :
    Layout line (gap ++ token.literal.toList ++ text) (⟨gap, token⟩ :: pieces) last := by
  constructor
  · simp [hlayout.text_eq, Piece.text]
  · intro piece hmem
    rcases List.mem_cons.mp hmem with rfl | hmem
    · exact hgap
    · exact hlayout.gaps piece hmem
  · exact hlayout.last_gap
  · intro before piece after hpieces
    rcases List.cons_eq_append_iff.mp hpieces with ⟨rfl, hcons⟩ | ⟨others, rfl, hothers⟩
    · obtain ⟨rfl, rfl⟩ := List.cons.inj hcons
      rw [← hlayout.text_eq]
      exact hmunch.lexed
    · exact hlayout.lexed others piece after hothers
  · intro before piece after hpieces
    rcases List.cons_eq_append_iff.mp hpieces with ⟨rfl, hcons⟩ | ⟨others, rfl, hothers⟩
    · obtain ⟨rfl, rfl⟩ := List.cons.inj hcons
      simpa using hline
    · rw [hlayout.lines others piece after hothers, hline]
      simp only [List.flatMap_cons, Piece.text, List.count_append, hmunch.count_newline]
      omega

end Layout

namespace Source

theorem next?_eq_none {source : Source} (hnext : source.next? = none) :
    (∀ c ∈ source.rest, GapChar c) ∧ source.skipGap = source.drained := by
  unfold next? at hnext
  split at hnext
  · rename_i line hskip
    have hdrop : source.rest.dropWhile isGap = [] := congrArg Source.rest hskip
    have htake : source.rest.takeWhile isGap = source.rest := by
      have hsplit := @List.takeWhile_append_dropWhile _ isGap source.rest
      rwa [hdrop, List.append_nil] at hsplit
    constructor
    · intro c hmem
      rw [← htake] at hmem
      exact isGap_iff.mp (List.mem_takeWhile_imp hmem)
    · simp only [skipGap, drained, endLine, hdrop, htake]
  · contradiction

theorem next?_eq_some {source after : Source} {token : Token}
    (hnext : source.next? = some (token, after)) :
    ∃ gap behind, source.rest = gap ++ token.literal.toList ++ behind ∧
      (∀ c ∈ gap, GapChar c) ∧ Munch token.kind token.literal.toList behind ∧
      token.line = source.line + gap.count '\n' ∧ after = ⟨behind, token.line⟩ := by
  unfold next? at hnext
  split at hnext
  · contradiction
  · rename_i c cs line hskip
    obtain ⟨hdrop, hline⟩ := Source.mk.inj hskip
    have hgap : ¬ GapChar c := by
      have hhead : c ∈ (source.rest.dropWhile isGap).head? := by simp [hdrop]
      rw [← isGap_iff, not_of_mem_head?_dropWhile hhead]
      simp
    simp only [Option.some.injEq, Prod.mk.injEq] at hnext
    obtain ⟨rfl, rfl⟩ := hnext
    refine ⟨source.rest.takeWhile isGap, (Lexeme.longest c cs).rest, ?_, ?_, ?_, hline.symm, rfl⟩
    · simp only [Lexeme.token, String.toList_ofList, List.append_assoc, Lexeme.text_append_rest]
      rw [← hdrop, List.takeWhile_append_dropWhile]
    · intro d hmem
      exact isGap_iff.mp (List.mem_takeWhile_imp hmem)
    · simpa only [Lexeme.token, String.toList_ofList] using munch_longest c cs hgap

theorem endLine_of_next? {source after : Source} {token : Token}
    (hnext : source.next? = some (token, after)) : after.endLine = source.endLine := by
  obtain ⟨gap, behind, hrest, _, hmunch, hline, rfl⟩ := next?_eq_some hnext
  simp only [endLine, hrest, hline, List.count_append, hmunch.count_newline]
  omega

/-! ## All tokens -/

theorem tokens_of_next?_none {source : Source} (hnext : source.next? = none) :
    source.tokens = [] := by
  rw [tokens]
  split
  · rfl
  · simp_all

theorem tokens_of_next?_some {source after : Source} {token : Token}
    (hnext : source.next? = some (token, after)) : source.tokens = token :: after.tokens := by
  rw [tokens]
  split
  · simp_all
  · simp_all

theorem exists_layout (source : Source) :
    ∃ pieces last, pieces.map Piece.token = source.tokens ∧
      Layout source.line source.rest pieces last := by
  induction hlength : source.rest.length using Nat.strongRecOn generalizing source with
  | ind length ih =>
      cases hnext : source.next? with
      | none =>
          refine ⟨[], source.rest, ?_, Layout.nil (next?_eq_none hnext).1⟩
          rw [tokens_of_next?_none hnext]
          rfl
      | some read =>
          obtain ⟨token, after⟩ := read
          have hshorter := length_rest_lt_of_next? hnext
          rw [hlength] at hshorter
          obtain ⟨gap, behind, hrest, hgap, hmunch, hline, rfl⟩ := next?_eq_some hnext
          obtain ⟨pieces, last, htokens, hlayout⟩ := ih _ hshorter _ rfl
          refine ⟨⟨gap, token⟩ :: pieces, last, ?_, ?_⟩
          · rw [tokens_of_next?_some hnext, List.map_cons, htokens]
          · rw [hrest]
            exact hlayout.cons hgap hmunch hline

theorem munch_of_mem_tokens {source : Source} {token : Token} (hmem : token ∈ source.tokens) :
    ∃ behind, Munch token.kind token.literal.toList behind := by
  obtain ⟨pieces, last, htokens, hlayout⟩ := source.exists_layout
  rw [← htokens] at hmem
  obtain ⟨piece, hpiece, rfl⟩ := List.mem_map.mp hmem
  obtain ⟨before, after, hpieces⟩ := List.append_of_mem hpiece
  exact ⟨_, (hlayout.lexed before piece after hpieces).munch⟩

/-- The token of the read number `count`, counted from zero. -/
def read (source : Source) : Nat → Token
  | 0 => source.next.1
  | count + 1 => source.next.2.read count

theorem next_of_next?_none {source : Source} (hnext : source.next? = none) :
    source.next = (endToken source.endLine, source.drained) := by
  unfold next
  rw [hnext, (next?_eq_none hnext).2]
  rfl

theorem next_of_next?_some {source after : Source} {token : Token}
    (hnext : source.next? = some (token, after)) : source.next = (token, after) := by
  unfold next
  rw [hnext]

theorem read_eq (source : Source) (count : Nat) :
    source.read count = source.tokens[count]?.getD (endToken source.endLine) := by
  induction count generalizing source with
  | zero =>
      rw [read]
      cases hnext : source.next? with
      | none => simp [next_of_next?_none hnext, tokens_of_next?_none hnext]
      | some step =>
          obtain ⟨token, after⟩ := step
          simp [next_of_next?_some hnext, tokens_of_next?_some hnext]
  | succ count ih =>
      rw [read, ih]
      cases hnext : source.next? with
      | none =>
          have hdrained : source.drained.next? = none := rfl
          have hline : source.drained.endLine = source.endLine := by simp [drained, endLine]
          simp [next_of_next?_none hnext, tokens_of_next?_none hnext,
            tokens_of_next?_none hdrained, hline]
      | some step =>
          obtain ⟨token, after⟩ := step
          simp [next_of_next?_some hnext, tokens_of_next?_some hnext, endLine_of_next? hnext]

/-- Every text is its tokens and the gaps around them, each token is the longest lexeme at
its position and knows its line, and the reads give the tokens and then the end token
on the last line for ever. -/
theorem layout_and_reads (text : String) :
    (∃ pieces last, pieces.map Piece.token = (ofString text).tokens ∧
      Layout 1 text.toList pieces last) ∧
    ∀ count, (ofString text).read count =
      (ofString text).tokens[count]?.getD ⟨.eof, "", 1 + text.toList.count '\n'⟩ := by
  constructor
  · exact exists_layout (ofString text)
  · exact read_eq (ofString text)

end Source

end Scriptlet
