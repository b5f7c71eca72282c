import Scriptlet.Token

/-!
# Faults

What can be wrong with a sequence of tokens.  Reading goes on behind a fault,
so a source has a list of them.
-/

namespace Scriptlet

/-- A defect of a token sequence, with the line on which it was found. -/
inductive Fault where
  /-- A token of one kind had to follow and one of another kind stood there. -/
  | unexpected (expected found : Kind) (line : Nat)
  /-- No operand begins with a token of this kind. -/
  | noOperand (kind : Kind) (line : Nat)
  /-- An integer token has a text that names no integer. -/
  | badInteger (literal : String) (line : Nat)
deriving DecidableEq, Repr

namespace Fault

def line : Fault → Nat
  | unexpected _ _ line => line
  | noOperand _ line => line
  | badInteger _ line => line

/-- The fault without its place. -/
def complaint : Fault → String
  | unexpected expected found _ =>
    "expected next token to be " ++ expected.label ++ ", got " ++ found.label ++ " instead"
  | noOperand kind _ => "no prefix parse function for " ++ kind.label ++ " found"
  | badInteger literal _ => "could not parse " ++ Text.quote literal ++ " as integer"

def message (fault : Fault) : String :=
  "Error on line " ++ toString fault.line ++ ": " ++ fault.complaint

/-- The messages of all faults, one a line, without a line feed at the end. -/
def report (faults : List Fault) : String :=
  "\n".intercalate (faults.map message)

end Fault

end Scriptlet
