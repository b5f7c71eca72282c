import Scriptlet.Numeral
import Scriptlet.Precedence
import Scriptlet.Tree.Basic

/-!
# The grammar

The language is given by a layered grammar that knows nothing of floors, of lookahead or
of recovery.  `Derives phrase input rest` says that the tokens of `input` in front of
`rest` derive the phrase.  The rest matters for two reasons only: a block and a skipped
value may end with the input, and an expression statement without a semicolon may not
stand before a minus, which would continue it.
-/

namespace Scriptlet

/-- The layers of expressions, from the loosest to the tightest. -/
inductive Layer where
  | equality
  | comparison
  | sum
  | product
  /-- Operands, with their operators in front. -/
  | unary
deriving DecidableEq, Repr

namespace Layer

/-- The operators that stand between the parts of a chain. -/
def operators : Layer → List Kind
  | equality => [.equal, .notEqual]
  | comparison => [.less, .greater]
  | sum => [.plus, .minus]
  | product => [.star, .slash]
  | unary => []

/-- The layer of the parts of a chain. -/
def tighter : Layer → Layer
  | equality => comparison
  | comparison => sum
  | sum => product
  | product => unary
  | unary => unary

end Layer

/-- A place of the grammar with the tree that fills it. -/
inductive Phrase where
  | expression (layer : Layer) (value : Expr)
  | block (value : Block)
  | statement (value : Stmt)
  | statements (values : List Stmt)

/-- The first token has the property, if there is one. -/
def Front (property : Token → Prop) (tokens : List Token) : Prop :=
  ∀ token ∈ tokens.head?, property token

@[simp] theorem front_nil {property : Token → Prop} : Front property [] := by
  intro token htoken
  contradiction

@[simp] theorem front_cons_iff {property : Token → Prop} {token : Token} {tokens : List Token} :
    Front property (token :: tokens) ↔ property token := by
  simp [Front]

theorem Front.imp {property weaker : Token → Prop} {tokens : List Token}
    (hfront : Front property tokens) (himp : ∀ token, property token → weaker token) :
    Front weaker tokens :=
  fun token htoken => himp token (hfront token htoken)

/-- Any number of tokens other than the semicolon, and then the semicolon or the
end of the input. -/
inductive Skips : List Token → List Token → Prop
  | semicolon {skipped rest : List Token} {mark : Token}
      (hskipped : ∀ token ∈ skipped, token.kind ≠ .semicolon)
      (hmark : mark.kind = .semicolon) :
      Skips (skipped ++ mark :: rest) rest
  | ending {skipped : List Token}
      (hskipped : ∀ token ∈ skipped, token.kind ≠ .semicolon) :
      Skips skipped []

/-- The tokens of the first list in front of the second derive the phrase. -/
inductive Derives : Phrase → List Token → List Token → Prop
  | name {token : Token} {rest : List Token} (hkind : token.kind = .ident) :
      Derives (.expression .unary (.name ⟨token, token.literal⟩)) (token :: rest) rest
  | integer {token : Token} {value : Int} {rest : List Token} (hkind : token.kind = .int)
      (hvalue : Numeral.value? token.literal = some value) :
      Derives (.expression .unary (.integer token value)) (token :: rest) rest
  | truth {token : Token} {rest : List Token} (hkind : token.kind = .trueWord) :
      Derives (.expression .unary (.boolean token true)) (token :: rest) rest
  | falsehood {token : Token} {rest : List Token} (hkind : token.kind = .falseWord) :
      Derives (.expression .unary (.boolean token false)) (token :: rest) rest
  | unary {token : Token} {operand : Expr} {input rest : List Token}
      (hkind : token.kind = .bang ∨ token.kind = .minus)
      (hoperand : Derives (.expression .unary operand) input rest) :
      Derives (.expression .unary (.unary token token.literal operand)) (token :: input) rest
  | group {opening closing : Token} {inner : Expr} {input rest : List Token}
      (hopening : opening.kind = .lparen)
      (hinner : Derives (.expression .equality inner) input (closing :: rest))
      (hclosing : closing.kind = .rparen) :
      Derives (.expression .unary inner) (opening :: input) rest
  | conditional {word opening closing : Token} {condition : Expr} {consequence : Block}
      {input middle rest : List Token}
      (hword : word.kind = .ifWord) (hopening : opening.kind = .lparen)
      (hcondition : Derives (.expression .equality condition) input (closing :: middle))
      (hclosing : closing.kind = .rparen)
      (hconsequence : Derives (.block consequence) middle rest) :
      Derives (.expression .unary (.conditional word condition consequence none))
        (word :: opening :: input) rest
  | alternative {word opening closing other : Token} {condition : Expr}
      {consequence alternative : Block} {input middle last rest : List Token}
      (hword : word.kind = .ifWord) (hopening : opening.kind = .lparen)
      (hcondition : Derives (.expression .equality condition) input (closing :: middle))
      (hclosing : closing.kind = .rparen)
      (hconsequence : Derives (.block consequence) middle (other :: last))
      (hother : other.kind = .elseWord)
      (halternative : Derives (.block alternative) last rest) :
      Derives (.expression .unary (.conditional word condition consequence (some alternative)))
        (word :: opening :: input) rest
  | single {layer : Layer} {value : Expr} {input rest : List Token}
      (hvalue : Derives (.expression layer.tighter value) input rest) :
      Derives (.expression layer value) input rest
  | binary {layer : Layer} {operator : Token} {left right : Expr}
      {input middle rest : List Token}
      (hleft : Derives (.expression layer left) input (operator :: middle))
      (hoperator : operator.kind ∈ layer.operators)
      (hright : Derives (.expression layer.tighter right) middle rest) :
      Derives (.expression layer (.binary operator left operator.literal right)) input rest
  | closedBlock {mark closing : Token} {statements : List Stmt} {input rest : List Token}
      (hmark : mark.kind = .lbrace)
      (hstatements : Derives (.statements statements) input (closing :: rest))
      (hclosing : closing.kind = .rbrace) :
      Derives (.block (.mk mark statements)) (mark :: input) rest
  | endingBlock {mark : Token} {statements : List Stmt} {input : List Token}
      (hmark : mark.kind = .lbrace)
      (hstatements : Derives (.statements statements) input []) :
      Derives (.block (.mk mark statements)) (mark :: input) []
  | binding {word name sign : Token} {input rest : List Token}
      (hword : word.kind = .letWord) (hname : name.kind = .ident)
      (hsign : sign.kind = .assign) (hvalue : Skips input rest) :
      Derives (.statement (.binding word ⟨name, name.literal⟩ .missing))
        (word :: name :: sign :: input) rest
  | result {word : Token} {input rest : List Token} (hword : word.kind = .returnWord)
      (hvalue : Skips input rest) :
      Derives (.statement (.result word .missing)) (word :: input) rest
  | closedExpression {first mark : Token} {value : Expr} {input rest : List Token}
      (hvalue : Derives (.expression .equality value) (first :: input) (mark :: rest))
      (hmark : mark.kind = .semicolon) :
      Derives (.statement (.expression first value)) (first :: input) rest
  | openExpression {first : Token} {value : Expr} {input rest : List Token}
      (hvalue : Derives (.expression .equality value) (first :: input) rest)
      (hnext : Front (fun token => token.kind ≠ .minus) rest) :
      Derives (.statement (.expression first value)) (first :: input) rest
  | nil {rest : List Token} : Derives (.statements []) rest rest
  | cons {first : Stmt} {others : List Stmt} {input middle rest : List Token}
      (hfirst : Derives (.statement first) input middle)
      (hothers : Derives (.statements others) middle rest) :
      Derives (.statements (first :: others)) input rest

theorem Skips.suffix {input rest : List Token} (hskips : Skips input rest) : rest <:+ input := by
  cases hskips with
  | semicolon hskipped hmark =>
      exact (List.suffix_cons _ _).trans (List.suffix_append _ _)
  | ending hskipped => exact List.nil_suffix

namespace Derives

theorem suffix {phrase : Phrase} {input rest : List Token}
    (hderives : Derives phrase input rest) : rest <:+ input := by
  induction hderives with
  | name | integer | truth | falsehood => exact List.suffix_cons _ _
  | unary _ _ ih => exact ih.trans (List.suffix_cons _ _)
  | group _ _ _ ih =>
      exact ((List.suffix_cons _ _).trans ih).trans (List.suffix_cons _ _)
  | conditional _ _ _ _ _ ihcondition ihconsequence =>
      have hmiddle := (List.suffix_cons _ _).trans ihcondition
      exact ((ihconsequence.trans hmiddle).trans (List.suffix_cons _ _)).trans
        (List.suffix_cons _ _)
  | alternative _ _ _ _ _ _ _ ihcondition ihconsequence ihalternative =>
      have hmiddle := (List.suffix_cons _ _).trans ihcondition
      have hlast := ((List.suffix_cons _ _).trans ihconsequence).trans hmiddle
      exact ((ihalternative.trans hlast).trans (List.suffix_cons _ _)).trans
        (List.suffix_cons _ _)
  | single _ ih => exact ih
  | binary _ _ _ ihleft ihright =>
      exact (ihright.trans (List.suffix_cons _ _)).trans ihleft
  | closedBlock _ _ _ ih =>
      exact ((List.suffix_cons _ _).trans ih).trans (List.suffix_cons _ _)
  | endingBlock => exact List.nil_suffix
  | binding _ _ _ hvalue =>
      exact ((hvalue.suffix.trans (List.suffix_cons _ _)).trans (List.suffix_cons _ _)).trans
        (List.suffix_cons _ _)
  | result _ hvalue => exact hvalue.suffix.trans (List.suffix_cons _ _)
  | closedExpression _ _ ih => exact (List.suffix_cons _ _).trans ih
  | openExpression _ _ ih => exact ih
  | nil => exact List.suffix_rfl
  | cons _ _ ihfirst ihothers => exact ihothers.trans ihfirst

end Derives

end Scriptlet
