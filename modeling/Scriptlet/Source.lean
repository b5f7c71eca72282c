import Scriptlet.Lexeme

/-!
# Source texts as token streams

A source is a text that is being read together with the number of the line
reached.  Reading skips the gap in front, counting its line feeds, and takes
one lexeme.  At the end of the text every further read gives the same end
token.
-/

namespace Scriptlet

/-- A text under reading. -/
structure Source where
  /-- The text not read yet. -/
  rest : List Char
  /-- The line of the first unread character, counted from one. -/
  line : Nat := 1
deriving DecidableEq, Repr

namespace Source

def ofString (text : String) : Source :=
  ⟨text.toList, 1⟩

/-- Moves to the next lexeme, or to the end. -/
def skipGap (source : Source) : Source :=
  ⟨source.rest.dropWhile isGap, source.line + (source.rest.takeWhile isGap).count '\n'⟩

def next? (source : Source) : Option (Token × Source) :=
  match source.skipGap with
  | ⟨[], _⟩ => none
  | ⟨c :: cs, line⟩ => some ((Lexeme.longest c cs).token line, ⟨(Lexeme.longest c cs).rest, line⟩)

def endToken (line : Nat) : Token :=
  ⟨.eof, "", line⟩

/-- Reads a token; at the end of the text the end token, any number of times. -/
def next (source : Source) : Token × Source :=
  match source.next? with
  | some read => read
  | none => (endToken source.skipGap.line, source.skipGap)

theorem length_rest_lt_of_next? {source after : Source} {token : Token}
    (h : source.next? = some (token, after)) : after.rest.length < source.rest.length := by
  have gap : source.skipGap.rest.length ≤ source.rest.length :=
    (List.dropWhile_suffix isGap).length_le
  unfold next? at h
  split at h
  · contradiction
  · rename_i c cs line start
    cases h
    have lexeme := Lexeme.length_rest_lt c cs
    rw [start] at gap
    exact Nat.lt_of_lt_of_le lexeme gap

/-- All tokens before the end. -/
def tokens (source : Source) : List Token :=
  match h : source.next? with
  | none => []
  | some (token, after) =>
    have := length_rest_lt_of_next? h
    token :: tokens after
termination_by source.rest.length

/-- The line on which the text ends. -/
def endLine (source : Source) : Nat :=
  source.line + source.rest.count '\n'

/-- The source with all its tokens read. -/
def drained (source : Source) : Source :=
  ⟨[], source.endLine⟩

end Source

end Scriptlet
