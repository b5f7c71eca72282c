import Scriptlet.Numeral
import Scriptlet.Parser.Step
import Scriptlet.Precedence
import Scriptlet.Source
import Scriptlet.Tree.Basic

/-!
# Reading trees from tokens

An expression is an operand followed by a chain of operators; the floor of a chain is
the precedence that an operator has to exceed to belong to it.  Reading goes on behind
every fault and leaves a hole in the tree.  The values of bindings and results are
skipped, not read.  The end of the input is the end marker on line `endLine`, which may
be read any number of times.
-/

namespace Scriptlet

/-- The ways in which a token can begin an operand. -/
inductive Opening where
  | name
  | integer
  | boolean
  | unary
  | group
  | conditional
deriving DecidableEq, Repr

/-- How a token of this kind begins an operand, if it does. -/
def Kind.opening? : Kind → Option Opening
  | .ident => some .name
  | .int => some .integer
  | .trueWord | .falseWord => some .boolean
  | .bang | .minus => some .unary
  | .lparen => some .group
  | .ifWord => some .conditional
  | _ => none

/-- The places where statements follow each other. -/
inductive Scope where
  | program
  | block
deriving DecidableEq, Repr

/-- Whether a token of this kind ends the statements of a scope. -/
def Scope.endsAt : Scope → Kind → Bool
  | program, kind => kind = .eof
  | block, kind => kind = .eof || kind = .rbrace

namespace Parser

open Step

def integer (token : Token) (input : List Token) : Step Expr input :=
  match Numeral.value? token.literal with
  | some value => .pure (.integer token value)
  | none => .fail .missing (.badInteger token.literal token.line)

/-- Reads a binding behind its keyword, up to the end of the statement. -/
def binding (endLine : Nat) (token : Token) (input : List Token) : Step (Option Stmt) input :=
  (expect endLine .ident input).andThen none fun name afterName _ =>
    (expect endLine .assign afterName).andThen none fun _ afterSign _ =>
      (skipStatement afterSign).map fun _ =>
        some (.binding token ⟨name, name.literal⟩ .missing)

mutual

/-- Reads an expression whose operators all exceed `floor`. -/
def expression (endLine : Nat) (floor : Precedence) (input : List Token) : Step Expr input :=
  match input with
  | [] => ⟨.missing, [.noOperand .eof endLine], 1, [], List.suffix_rfl, .inr rfl⟩
  | token :: rest => .behind token (expressionFrom endLine floor token rest)
termination_by 6 * input.length

/-- Reads an expression behind its first token. -/
def expressionFrom (endLine : Nat) (floor : Precedence) (token : Token)
    (input : List Token) : Step Expr input :=
  match token.kind.opening? with
  | none => .fail .missing (.noOperand token.kind token.line)
  | some opening =>
    (operand endLine opening token input).bind fun left rest _ => chain endLine floor left rest
termination_by 6 * input.length + 4

/-- Reads an operand behind its first token. -/
def operand (endLine : Nat) (opening : Opening) (token : Token)
    (input : List Token) : Step Expr input :=
  match opening with
  | .name => .pure (.name ⟨token, token.literal⟩)
  | .integer => integer token input
  | .boolean => .pure (.boolean token (token.kind = .trueWord))
  | .unary => (expression endLine .unary input).map (.unary token token.literal)
  | .group => (enclosed endLine input).map fun inner => inner.getD .missing
  | .conditional =>
    (expect endLine .lparen input).andThen .missing fun _ rest _ =>
      (enclosed endLine rest).andThen .missing fun condition rest _ =>
        (braced endLine rest).andThen .missing fun consequence rest _ =>
          (accept .elseWord rest).bind fun word rest _ =>
            match word with
            | none => .pure (.conditional token condition consequence none)
            | some _ =>
              (braced endLine rest).andThen .missing fun alternative _ _ =>
                .pure (.conditional token condition consequence (some alternative))
termination_by 6 * input.length + 3

/-- Reads an expression and the closing parenthesis behind it. -/
def enclosed (endLine : Nat) (input : List Token) : Step (Option Expr) input :=
  (expression endLine .lowest input).bind fun inner rest _ =>
    (expect endLine .rparen rest).map fun closing => closing.map fun _ => inner
termination_by 6 * input.length + 1

/-- Reads a block with its opening brace. -/
def braced (endLine : Nat) (input : List Token) : Step (Option Block) input :=
  (expect endLine .lbrace input).andThen none fun mark rest _ =>
    (block endLine mark rest).map some
termination_by 6 * input.length + 2

/-- Reads the operators that exceed `floor`, each with the operand behind it, and
groups them to the left around what was read before. -/
def chain (endLine : Nat) (floor : Precedence) (left : Expr) (input : List Token) :
    Step Expr input :=
  match input with
  | [] => .pure left
  | token :: rest =>
    if floor < token.kind.precedence then
      .behind token <|
        (expression endLine token.kind.precedence rest).bind fun right rest _ =>
          chain endLine floor (.binary token left token.literal right) rest
    else
      .pure left
termination_by 6 * input.length

/-- Reads a block behind its opening brace.  The end of the input closes every
block. -/
def block (endLine : Nat) (mark : Token) (input : List Token) : Step Block input :=
  (sequence endLine .block input).bind fun statements rest _ =>
    (advance rest).map fun _ => .mk mark statements
termination_by 6 * input.length + 1

/-- Reads a statement behind its first token.  A binding without a name or
without its sign is no statement. -/
def statement (endLine : Nat) (token : Token) (input : List Token) :
    Step (Option Stmt) input :=
  match token.kind with
  | .letWord => binding endLine token input
  | .returnWord => (skipStatement input).map fun _ => some (.result token .missing)
  | _ =>
    (expressionFrom endLine .lowest token input).bind fun value rest _ =>
      (accept .semicolon rest).map fun _ => some (.expression token value)
termination_by 6 * input.length + 5

/-- Reads statements up to the end of their scope, which is left in place. -/
def sequence (endLine : Nat) (scope : Scope) (input : List Token) : Step (List Stmt) input :=
  match input with
  | [] => .pure []
  | token :: rest =>
    if scope.endsAt token.kind then
      .pure []
    else
      .behind token <|
        (statement endLine token rest).bind fun first rest _ =>
          (sequence endLine scope rest).map fun others => first.toList ++ others
termination_by 6 * input.length

end

theorem operand_unary (endLine : Nat) (token : Token) (input : List Token) :
    operand endLine .unary token input =
      (expression endLine .unary input).map (.unary token token.literal) := by
  rw [operand]

theorem operand_group (endLine : Nat) (token : Token) (input : List Token) :
    operand endLine .group token input =
      (enclosed endLine input).map fun inner => inner.getD .missing := by
  rw [operand]

end Parser

/-- A reader of programs over a token list.  It always holds the current token
and the one behind it. -/
structure Parser where
  /-- The tokens from the current one on. -/
  remaining : List Token
  /-- The line of the end marker behind the list. -/
  endLine : Nat
  /-- How many tokens were taken from the list, end markers included. -/
  pulled : Nat
  /-- Everything found wrong so far. -/
  faults : List Fault
deriving DecidableEq, Repr

namespace Parser

def start (tokens : List Token) (endLine : Nat) : Parser :=
  ⟨tokens, endLine, 2, []⟩

/-- Reads a program up to the next end marker. -/
def program (parser : Parser) : Program × Parser :=
  let body := sequence parser.endLine .program parser.remaining
  (⟨body.value⟩,
    { parser with
      remaining := body.rest
      pulled := parser.pulled + body.taken
      faults := parser.faults ++ body.faults })

def ofSource (source : Source) : Parser :=
  start source.tokens source.endLine

end Parser

end Scriptlet
