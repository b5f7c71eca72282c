/-!
# Texts as bytes

Input arrives and output leaves as bytes.  Bytes are cut into lines before they
are read as text, so a malformed line does not hide the lines before it.
-/

namespace Scriptlet.Text

/-- The bytes of a text, in UTF-8. -/
def bytes (text : String) : List UInt8 :=
  text.toUTF8.data.toList

/-- The text that bytes in UTF-8 stand for, unless they are malformed. -/
def ofBytes? (bytes : List UInt8) : Option String :=
  String.fromUTF8? ⟨bytes.toArray⟩

def lineFeed : UInt8 := 10

def carriageReturn : UInt8 := 13

/-- Drops one carriage return at the end of a line. -/
def dropReturn (line : List UInt8) : List UInt8 :=
  if line.getLast? = some carriageReturn then line.dropLast else line

/-- The lines of an input.  A line ends with a line feed or with a carriage
return and a line feed; the last one may also end with the input, and then it
is a line only if it is not empty. -/
def lines (input : List UInt8) : List (List UInt8) :=
  match input with
  | [] => []
  | byte :: input =>
    match h : (byte :: input).dropWhile (· ≠ lineFeed) with
    | [] => [byte :: input]
    | _ :: rest =>
      have : rest.length ≤ input.length := by
        have := (List.dropWhile_suffix (l := byte :: input) (· ≠ lineFeed)).length_le
        simp only [h, List.length_cons] at this
        omega
      dropReturn ((byte :: input).takeWhile (· ≠ lineFeed)) :: lines rest
termination_by input.length

end Scriptlet.Text
