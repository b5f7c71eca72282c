import Scriptlet.Token

/-!
# Syntax trees

Every node carries the token it was read from.  Reading never stops at a fault, so a tree
may have holes: `Expr.missing` stands wherever an expression should be and none could be
read.  The fields of a node may say something else than its token; trees that come from
tokens agree with them.  The text of a tree shows by parentheses how an expression was
grouped; braces are not written, and a missing expression is written as nothing.
-/

namespace Scriptlet

/-- A name with the token it was read from. -/
structure Identifier where
  token : Token
  text : String
deriving DecidableEq, Repr

mutual

inductive Expr where
  /-- The place of an expression that is not there. -/
  | missing
  | name (identifier : Identifier)
  | integer (token : Token) (value : Int)
  | boolean (token : Token) (value : Bool)
  /-- An operator in front of its operand. -/
  | unary (token : Token) (operator : String) (operand : Expr)
  /-- An operator between its operands. -/
  | binary (token : Token) (left : Expr) (operator : String) (right : Expr)
  | conditional (token : Token) (condition : Expr) (consequence : Block)
      (alternative : Option Block)

/-- Statements between braces, with the token of the opening brace. -/
inductive Block where
  | mk (token : Token) (statements : List Stmt)

inductive Stmt where
  /-- Binds a name. -/
  | binding (token : Token) (name : Identifier) (value : Expr)
  /-- Ends the surrounding body with a value. -/
  | result (token : Token) (value : Expr)
  | expression (token : Token) (value : Expr)

end

namespace Block

def token : Block → Token
  | mk token _ => token

def statements : Block → List Stmt
  | mk _ statements => statements

end Block

/-- The token of a statement; for an expression, its first token. -/
def Stmt.token : Stmt → Token
  | binding token _ _ => token
  | result token _ => token
  | expression token _ => token

structure Program where
  statements : List Stmt

mutual

def Expr.render : Expr → String
  | .missing => ""
  | .name identifier => identifier.text
  | .integer token _ => token.literal
  | .boolean token _ => token.literal
  | .unary _ operator operand => "(" ++ operator ++ operand.render ++ ")"
  | .binary _ left operator right =>
    "(" ++ left.render ++ " " ++ operator ++ " " ++ right.render ++ ")"
  | .conditional _ condition consequence none =>
    "if" ++ condition.render ++ " " ++ consequence.render
  | .conditional _ condition consequence (some alternative) =>
    "if" ++ condition.render ++ " " ++ consequence.render ++ " else " ++ alternative.render

def Block.render : Block → String
  | .mk _ statements => Stmt.renderAll statements

def Stmt.render : Stmt → String
  | .binding token name value => token.literal ++ " " ++ name.text ++ " = " ++ value.render ++ ";"
  | .result token value => token.literal ++ " " ++ value.render ++ ";"
  | .expression _ value => value.render

/-- Statements follow each other without anything between them. -/
def Stmt.renderAll : List Stmt → String
  | [] => ""
  | statement :: statements => statement.render ++ Stmt.renderAll statements

end

def Program.render (program : Program) : String :=
  Stmt.renderAll program.statements

end Scriptlet
