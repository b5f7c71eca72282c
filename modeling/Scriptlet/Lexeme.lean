import Scriptlet.Token

/-!
# Lexemes

A source text is read as lexemes with gaps between them.  The lexeme at a
position is always the longest one: a run of letters, a run of digits, a
two-character comparison, or a single character.  A character that begins none
of these is a lexeme of the illegal kind, so reading never gets stuck.
-/

namespace Scriptlet

/-- Characters that only separate lexemes: the blank, the tab, the carriage
return, the form feed and the line feed. -/
def isGap (c : Char) : Bool :=
  c = ' ' || c = '\t' || c = '\r' || c = '\x0c' || c = '\n'

def isLetter (c : Char) : Bool :=
  c.isAlpha || c = '_'

def wordKind (word : List Char) : Kind :=
  if word = ['f', 'n'] then .fnWord
  else if word = ['l', 'e', 't'] then .letWord
  else if word = ['t', 'r', 'u', 'e'] then .trueWord
  else if word = ['f', 'a', 'l', 's', 'e'] then .falseWord
  else if word = ['i', 'f'] then .ifWord
  else if word = ['e', 'l', 's', 'e'] then .elseWord
  else if word = ['r', 'e', 't', 'u', 'r', 'n'] then .returnWord
  else .ident

/-- The kind of a character that is a lexeme by itself. -/
def symbolKind : Char → Kind
  | '=' => .assign
  | '+' => .plus
  | '-' => .minus
  | '!' => .bang
  | '*' => .star
  | '/' => .slash
  | '<' => .less
  | '>' => .greater
  | ',' => .comma
  | ';' => .semicolon
  | '(' => .lparen
  | ')' => .rparen
  | '\x7b' => .lbrace
  | '\x7d' => .rbrace
  | _ => .illegal

/-- A lexeme cut off the front of a text. -/
structure Lexeme where
  kind : Kind
  text : List Char
  /-- The text behind the lexeme. -/
  rest : List Char
deriving DecidableEq, Repr

namespace Lexeme

/-- The longest lexeme at the front of `c :: cs`, where `c` is not in a gap. -/
def longest (c : Char) (cs : List Char) : Lexeme :=
  if isLetter c then
    ⟨wordKind (c :: cs.takeWhile isLetter), c :: cs.takeWhile isLetter, cs.dropWhile isLetter⟩
  else if c.isDigit then
    ⟨.int, c :: cs.takeWhile Char.isDigit, cs.dropWhile Char.isDigit⟩
  else
    match c, cs with
    | '=', '=' :: rest => ⟨.equal, ['=', '='], rest⟩
    | '!', '=' :: rest => ⟨.notEqual, ['!', '='], rest⟩
    | _, rest => ⟨symbolKind c, [c], rest⟩

/-- The token of a lexeme that starts on the line `line`. -/
def token (lexeme : Lexeme) (line : Nat) : Token :=
  ⟨lexeme.kind, String.ofList lexeme.text, line⟩

theorem text_append_rest (c : Char) (cs : List Char) :
    (Lexeme.longest c cs).text ++ (Lexeme.longest c cs).rest = c :: cs := by
  unfold longest
  split
  · simp
  · split
    · simp
    · split <;> simp

theorem text_ne_nil (c : Char) (cs : List Char) : (Lexeme.longest c cs).text ≠ [] := by
  unfold longest
  split
  · simp
  · split
    · simp
    · split <;> simp

theorem length_rest_lt (c : Char) (cs : List Char) :
    (Lexeme.longest c cs).rest.length < (c :: cs).length := by
  have whole := congrArg List.length (text_append_rest c cs)
  have positive := List.length_pos_iff.mpr (text_ne_nil c cs)
  rw [List.length_append] at whole
  omega

end Lexeme

end Scriptlet
