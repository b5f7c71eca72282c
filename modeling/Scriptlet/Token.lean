import Scriptlet.Text.Quoted

/-!
# Tokens

A token is a classified piece of source text together with the line on which it
starts.  The classification is a closed list of kinds.  Two kinds, the line
break and the blank run, never leave the lexer but are accepted wherever a
token list is.
-/

namespace Scriptlet

inductive Kind where
  /-- The end of the input. -/
  | eof
  /-- A character that begins no lexeme. -/
  | illegal
  | ident
  | int
  | assign
  | plus
  | minus
  | bang
  | star
  | slash
  | less
  | greater
  | equal
  | notEqual
  | comma
  | semicolon
  | lparen
  | rparen
  | lbrace
  | rbrace
  | fnWord
  | letWord
  | trueWord
  | falseWord
  | ifWord
  | elseWord
  | returnWord
  | newline
  | blank
deriving DecidableEq, Repr, Inhabited

namespace Kind

/-- The name of a kind in messages: symbols stand for themselves, everything
else is written in capitals. -/
def label : Kind → String
  | eof => "EOF"
  | illegal => "ILLEGAL"
  | ident => "IDENT"
  | int => "INT"
  | assign => "="
  | plus => "+"
  | minus => "-"
  | bang => "!"
  | star => "*"
  | slash => "/"
  | less => "<"
  | greater => ">"
  | equal => "=="
  | notEqual => "!="
  | comma => ","
  | semicolon => ";"
  | lparen => "("
  | rparen => ")"
  | lbrace => "\x7b"
  | rbrace => "\x7d"
  | fnWord => "FUNCTION"
  | letWord => "LET"
  | trueWord => "TRUE"
  | falseWord => "FALSE"
  | ifWord => "IF"
  | elseWord => "ELSE"
  | returnWord => "RETURN"
  | newline => "NEWLINE"
  | blank => "IGNORED"

/-- The name of a kind in token dumps, where symbols are spelt out. -/
def title : Kind → String
  | eof => "Eof"
  | illegal => "Illegal"
  | ident => "Ident"
  | int => "Int"
  | assign => "Assign"
  | plus => "Plus"
  | minus => "Minus"
  | bang => "Bang"
  | star => "Asterisk"
  | slash => "Slash"
  | less => "Lt"
  | greater => "Gt"
  | equal => "Eq"
  | notEqual => "NotEq"
  | comma => "Comma"
  | semicolon => "Semicolon"
  | lparen => "LParen"
  | rparen => "RParen"
  | lbrace => "LBrace"
  | rbrace => "RBrace"
  | fnWord => "Function"
  | letWord => "Let"
  | trueWord => "True"
  | falseWord => "False"
  | ifWord => "If"
  | elseWord => "Else"
  | returnWord => "Return"
  | newline => "NewLine"
  | blank => "Ignored"

end Kind

/-- A classified piece of source text. -/
structure Token where
  kind : Kind
  /-- The exact source text; empty for the end of the input. -/
  literal : String
  /-- The line on which the text starts, counted from one. -/
  line : Nat
deriving DecidableEq, Repr, Inhabited

/-- The line that an interactive session prints for a token, the literal quoted. -/
def Token.dump (token : Token) : String :=
  "Token \x7b kind: " ++ token.kind.title ++ ", literal: " ++ Text.quote token.literal ++
    ", line: " ++ toString token.line ++ " \x7d"

end Scriptlet
