import Scriptlet.Parser.Basic

/-!
# Values

Only literals have values of their own.  A program has the value of its last
statement; names, operators, conditionals and blocks have none.  A source with
faults is not evaluated, and all its faults are given instead.
-/

namespace Scriptlet

/-- What a program can evaluate to. -/
inductive Value where
  | integer (value : Int)
  | boolean (value : Bool)
  | null
deriving DecidableEq, Repr

namespace Value

def typeName : Value → String
  | integer _ => "INTEGER"
  | boolean _ => "BOOLEAN"
  | null => "NULL"

def inspect : Value → String
  | integer value => toString value
  | boolean true => "true"
  | boolean false => "false"
  | null => "null"

end Value

def Expr.eval : Expr → Option Value
  | .integer _ value => some (.integer value)
  | .boolean _ value => some (.boolean value)
  | _ => none

def Stmt.eval : Stmt → Option Value
  | .expression _ value => value.eval
  | _ => none

def Program.eval (program : Program) : Option Value :=
  program.statements.getLast?.bind Stmt.eval

/-- The value of a source without faults, if it has one, or the faults. -/
def run (source : String) : Except (List Fault) (Option Value) :=
  let read := (Parser.ofSource (.ofString source)).program
  if read.2.faults.isEmpty then .ok read.1.eval else .error read.2.faults

end Scriptlet
