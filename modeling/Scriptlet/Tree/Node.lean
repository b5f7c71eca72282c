import Scriptlet.Value

/-!
# Nodes

The parts of a tree seen as one type, and the walk that lists them: each node
before its children, children in the order of the text.  A missing expression
is no node.
-/

namespace Scriptlet

inductive Node where
  | program (whole : Program)
  | statement (part : Stmt)
  /-- The name that a binding introduces. -/
  | bound (name : Identifier)
  | block (part : Block)
  | expression (part : Expr)

/-- The token of an expression, unless it is missing. -/
def Expr.token? : Expr → Option Token
  | .missing => none
  | .name identifier => some identifier.token
  | .integer token _ => some token
  | .boolean token _ => some token
  | .unary token _ _ => some token
  | .binary token _ _ _ => some token
  | .conditional token _ _ _ => some token

/-- The text of the first statement's token; empty for the empty program. -/
def Program.literal (program : Program) : String :=
  match program.statements with
  | [] => ""
  | statement :: _ => statement.token.literal

namespace Node

def literal : Node → String
  | program whole => whole.literal
  | statement part => part.token.literal
  | bound name => name.token.literal
  | block part => part.token.literal
  | expression part => (part.token?.map Token.literal).getD ""

def render : Node → String
  | program whole => whole.render
  | statement part => part.render
  | bound name => name.text
  | block part => part.render
  | expression part => part.render

/-- The value of a node; blocks and bound names have none. -/
def eval : Node → Option Value
  | program whole => whole.eval
  | statement part => part.eval
  | bound _ => none
  | block _ => none
  | expression part => part.eval

end Node

mutual

def Expr.nodes : Expr → List Node
  | .missing => []
  | .unary token operator operand =>
    .expression (.unary token operator operand) :: operand.nodes
  | .binary token left operator right =>
    .expression (.binary token left operator right) :: (left.nodes ++ right.nodes)
  | .conditional token condition consequence none =>
    .expression (.conditional token condition consequence none) ::
      (condition.nodes ++ consequence.nodes)
  | .conditional token condition consequence (some alternative) =>
    .expression (.conditional token condition consequence (some alternative)) ::
      (condition.nodes ++ consequence.nodes ++ alternative.nodes)
  | leaf => [.expression leaf]

def Block.nodes : Block → List Node
  | .mk token statements => .block (.mk token statements) :: Stmt.nodesOfAll statements

def Stmt.nodes : Stmt → List Node
  | .binding token name value =>
    .statement (.binding token name value) :: .bound name :: value.nodes
  | .result token value => .statement (.result token value) :: value.nodes
  | .expression token value => .statement (.expression token value) :: value.nodes

def Stmt.nodesOfAll : List Stmt → List Node
  | [] => []
  | statement :: statements => statement.nodes ++ Stmt.nodesOfAll statements

end

attribute [simp] Expr.nodes Block.nodes Stmt.nodes Stmt.nodesOfAll

/-- All nodes of a program, the program itself first. -/
def Program.nodes (program : Program) : List Node :=
  .program program :: Stmt.nodesOfAll program.statements

end Scriptlet
