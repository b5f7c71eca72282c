import Scriptlet.Proofs.Grammar.Exactness
import Scriptlet.Tree.Node

/-!
# Printing with the fewest parentheses

A tree is printed back to tokens, with an operand in parentheses only where the tree would
be read differently without them.  Reading the tokens of a well-formed tree gives the tree
back, apart from the tokens of its expression statements.  The proof goes through the
grammar: every place of an operand belongs to a layer, and an operand printed there without
parentheses is an expression of that layer already.
-/

namespace Scriptlet

/-- The tokens that are printed but belong to no node, one for each kind. -/
structure Punctuation where
  token : Kind → Token
  kind_token : ∀ kind, (token kind).kind = kind

/-- The places of an expression, as far as parentheses depend on them. -/
inductive Place where
  /-- A statement of its own, or between parentheses that are always there. -/
  | free
  /-- Behind an operator that has no other operand. -/
  | front
  | left (parent : Precedence)
  | right (parent : Precedence)

/-- Whether a chain of operators of the precedence stands in parentheses. -/
def Place.encloses : Place → Precedence → Bool
  | free, _ => false
  | front, _ => true
  | left parent, precedence => precedence < parent
  | right parent, precedence => precedence ≤ parent

section Printing

variable (marks : Punctuation)

mutual

def Expr.unparse (place : Place) : Expr → List Token
  | .missing => []
  | .name identifier => [identifier.token]
  | .integer token _ => [token]
  | .boolean token _ => [token]
  | .unary token _ operand => token :: operand.unparse .front
  | .binary token left _ right =>
    let bare := left.unparse (.left token.kind.precedence) ++
      token :: right.unparse (.right token.kind.precedence)
    if place.encloses token.kind.precedence then
      marks.token .lparen :: (bare ++ [marks.token .rparen])
    else
      bare
  | .conditional token condition consequence none =>
    token :: marks.token .lparen :: (condition.unparse .free ++
      marks.token .rparen :: consequence.unparse)
  | .conditional token condition consequence (some alternative) =>
    token :: marks.token .lparen :: (condition.unparse .free ++
      marks.token .rparen :: (consequence.unparse ++
        marks.token .elseWord :: alternative.unparse))

def Block.unparse : Block → List Token
  | .mk token statements =>
    token :: (Stmt.unparseAll statements ++ [marks.token .rbrace])

def Stmt.unparse : Stmt → List Token
  | .binding token name _ =>
    [token, name.token, marks.token .assign, marks.token .semicolon]
  | .result token _ => [token, marks.token .semicolon]
  | .expression _ value => value.unparse .free ++ [marks.token .semicolon]

def Stmt.unparseAll : List Stmt → List Token
  | [] => []
  | statement :: statements => statement.unparse ++ Stmt.unparseAll statements

end

def Program.unparse (program : Program) : List Token :=
  Stmt.unparseAll marks program.statements

mutual

/-- The tree with the token of every expression statement replaced by the first
token that is printed for it. -/
def Expr.settle : Expr → Expr
  | .missing => .missing
  | .name identifier => .name identifier
  | .integer token value => .integer token value
  | .boolean token value => .boolean token value
  | .unary token operator operand => .unary token operator operand.settle
  | .binary token left operator right => .binary token left.settle operator right.settle
  | .conditional token condition consequence none =>
    .conditional token condition.settle consequence.settle none
  | .conditional token condition consequence (some alternative) =>
    .conditional token condition.settle consequence.settle (some alternative.settle)

def Block.settle : Block → Block
  | .mk token statements => .mk token (Stmt.settleAll statements)

def Stmt.settle : Stmt → Stmt
  | .binding token name value => .binding token name value
  | .result token value => .result token value
  | .expression token value =>
    .expression ((value.unparse marks .free).headD token) value.settle

def Stmt.settleAll : List Stmt → List Stmt
  | [] => []
  | statement :: statements => statement.settle :: Stmt.settleAll statements

end

def Program.settle (program : Program) : Program :=
  ⟨Stmt.settleAll marks program.statements⟩

end Printing

/-- The node is complete, its tokens have the right kinds, and its fields agree with
them. -/
inductive Node.WellFormed : Node → Prop
  | name {token : Token} (hkind : token.kind = .ident) :
      WellFormed (.expression (.name ⟨token, token.literal⟩))
  | integer {token : Token} {value : Int} (hkind : token.kind = .int)
      (hvalue : Numeral.value? token.literal = some value) :
      WellFormed (.expression (.integer token value))
  | boolean {token : Token} {value : Bool}
      (hkind : token.kind = if value then .trueWord else .falseWord) :
      WellFormed (.expression (.boolean token value))
  | unary {token : Token} {operand : Expr} (hkind : token.kind = .bang ∨ token.kind = .minus)
      (hoperand : WellFormed (.expression operand)) :
      WellFormed (.expression (.unary token token.literal operand))
  | binary {token : Token} {layer : Layer} {left right : Expr}
      (hoperator : token.kind ∈ layer.operators) (hleft : WellFormed (.expression left))
      (hright : WellFormed (.expression right)) :
      WellFormed (.expression (.binary token left token.literal right))
  | conditional {word : Token} {condition : Expr} {consequence : Block}
      (hword : word.kind = .ifWord) (hcondition : WellFormed (.expression condition))
      (hconsequence : WellFormed (.block consequence)) :
      WellFormed (.expression (.conditional word condition consequence none))
  | alternative {word : Token} {condition : Expr} {consequence alternative : Block}
      (hword : word.kind = .ifWord) (hcondition : WellFormed (.expression condition))
      (hconsequence : WellFormed (.block consequence))
      (halternative : WellFormed (.block alternative)) :
      WellFormed (.expression (.conditional word condition consequence (some alternative)))
  | block {mark : Token} {statements : List Stmt} (hmark : mark.kind = .lbrace)
      (hstatements : ∀ part ∈ statements, WellFormed (.statement part)) :
      WellFormed (.block (.mk mark statements))
  | binding {word name : Token} (hword : word.kind = .letWord) (hname : name.kind = .ident) :
      WellFormed (.statement (.binding word ⟨name, name.literal⟩ .missing))
  | result {word : Token} (hword : word.kind = .returnWord) :
      WellFormed (.statement (.result word .missing))
  | statement {token : Token} {value : Expr} (hvalue : WellFormed (.expression value)) :
      WellFormed (.statement (.expression token value))
  | program {whole : Program}
      (hstatements : ∀ part ∈ whole.statements, WellFormed (.statement part)) :
      WellFormed (.program whole)

def Layer.ofPrecedence : Precedence → Layer
  | .lowest | .equality => equality
  | .comparison => comparison
  | .sum => sum
  | .product => product
  | .unary | .call => unary

/-- The layer of the expressions that may stand at a place. -/
def Place.layer : Place → Layer
  | free => .equality
  | front => .unary
  | left parent => .ofPrecedence parent
  | right parent => .above parent

theorem Place.layer_left {layer : Layer} {kind : Kind} (hkind : kind ∈ layer.operators) :
    (left kind.precedence).layer = layer := by
  rw [Place.layer, Layer.precedence_of_mem_operators hkind]
  cases layer <;> rfl

theorem Place.layer_right {layer : Layer} {kind : Kind} (hkind : kind ∈ layer.operators) :
    (right kind.precedence).layer = layer.tighter :=
  Layer.above_precedence hkind

theorem Place.layer_le_of_not_encloses {place : Place} {layer : Layer}
    (hbare : place.encloses layer.precedence = false) : place.layer ≤ layer := by
  cases place with
  | free => cases layer <;> decide
  | front => contradiction
  | left parent =>
      revert hbare
      cases parent <;> cases layer <;> decide
  | right parent =>
      have hparent : parent < layer.precedence := by
        have hnot : ¬ layer.precedence ≤ parent := of_decide_eq_false hbare
        exact Nat.not_le.mp hnot
      exact Layer.above_le_of_lt hparent

/-! ## Derivations of printed trees -/

/-- The settled tree of the node is derived from its print, whatever stands behind. -/
def Node.Reproduces (marks : Punctuation) : Node → Prop
  | program whole =>
    ∀ rest, Derives (.statements (whole.settle marks).statements) (whole.unparse marks ++ rest) rest
  | statement part =>
    ∀ rest, Derives (.statement (part.settle marks)) (part.unparse marks ++ rest) rest
  | bound _ => True
  | block part => ∀ rest, Derives (.block (part.settle marks)) (part.unparse marks ++ rest) rest
  | expression part => ∀ (place : Place) rest,
    Derives (.expression place.layer (part.settle marks)) (part.unparse marks place ++ rest) rest

section Derivations

variable {marks : Punctuation}

theorem derives_binary_at {place : Place} {layer : Layer} {token : Token} {left right : Expr}
    (hoperator : token.kind ∈ layer.operators)
    (hleft : (Node.expression left).Reproduces marks)
    (hright : (Node.expression right).Reproduces marks) (rest : List Token) :
    Derives (.expression place.layer ((Expr.binary token left token.literal right).settle marks))
      ((Expr.binary token left token.literal right).unparse marks place ++ rest) rest := by
  have hbare : ∀ last, Derives
      (.expression layer ((Expr.binary token left token.literal right).settle marks))
      (left.unparse marks (.left token.kind.precedence) ++
        token :: (right.unparse marks (.right token.kind.precedence) ++ last)) last := by
    intro last
    have hleftDerives := hleft (.left token.kind.precedence)
      (token :: (right.unparse marks (.right token.kind.precedence) ++ last))
    have hrightDerives := hright (.right token.kind.precedence) last
    rw [Place.layer_left hoperator] at hleftDerives
    rw [Place.layer_right hoperator] at hrightDerives
    rw [Expr.settle]
    exact .binary hleftDerives hoperator hrightDerives
  rw [Expr.unparse]
  by_cases hencloses : place.encloses token.kind.precedence = true
  · have hfree : Place.free.layer ≤ layer := Place.layer_le_of_not_encloses rfl
    have hinner := (hbare (marks.token .rparen :: rest)).loosen hfree
    have hgroup := Derives.group (marks.kind_token .lparen) hinner (marks.kind_token .rparen)
    rw [if_pos hencloses]
    simpa using hgroup.loosen place.layer.le_unary
  · have hle : place.layer ≤ layer := by
      refine Place.layer_le_of_not_encloses ?_
      rw [← Layer.precedence_of_mem_operators hoperator]
      exact Bool.not_eq_true _ ▸ hencloses
    rw [if_neg hencloses]
    simpa using (hbare rest).loosen hle

theorem derives_unparseAll {statements : List Stmt}
    (hparts : ∀ part ∈ statements, (Node.statement part).Reproduces marks) (rest : List Token) :
    Derives (.statements (Stmt.settleAll marks statements))
      (Stmt.unparseAll marks statements ++ rest) rest := by
  induction statements with
  | nil => exact .nil
  | cons first others ih =>
      have hfirst := hparts first List.mem_cons_self
      have hothers := ih fun part hmem => hparts part (List.mem_cons_of_mem _ hmem)
      rw [Stmt.unparseAll, Stmt.settleAll, List.append_assoc]
      exact .cons (hfirst _) hothers

theorem skips_semicolon (rest : List Token) :
    Skips (marks.token .semicolon :: rest) rest :=
  @Skips.semicolon [] rest _ (List.forall_mem_nil _) (marks.kind_token .semicolon)

theorem Expr.unparse_ne_nil {value : Expr} (hvalue : value ≠ .missing) (place : Place) :
    value.unparse marks place ≠ [] := by
  cases value with
  | missing => contradiction
  | name | integer | boolean | unary => simp [Expr.unparse]
  | binary token left operator right =>
      rw [Expr.unparse]
      split <;> simp
  | conditional token condition consequence alternative =>
      cases alternative <;> simp [Expr.unparse]

theorem derives_unparse_statement {token : Token} {value : Expr} (hcomplete : value ≠ .missing)
    (hvalue : (Node.expression value).Reproduces marks) (rest : List Token) :
    Derives (.statement ((Stmt.expression token value).settle marks))
      ((Stmt.expression token value).unparse marks ++ rest) rest := by
  have hderives := hvalue .free (marks.token .semicolon :: rest)
  rw [Stmt.unparse, Stmt.settle, List.append_assoc, List.singleton_append]
  cases htokens : value.unparse marks .free with
  | nil => exact absurd htokens (Expr.unparse_ne_nil hcomplete .free)
  | cons first others =>
      rw [htokens] at hderives
      exact .closedExpression hderives (marks.kind_token .semicolon)

theorem Node.WellFormed.reproduces {node : Node} (hnode : node.WellFormed) :
    node.Reproduces marks := by
  induction hnode with
  | name hkind =>
      intro place rest
      exact (Derives.name hkind).loosen place.layer.le_unary
  | integer hkind hvalue =>
      intro place rest
      exact (Derives.integer hkind hvalue).loosen place.layer.le_unary
  | @boolean token value hkind =>
      intro place rest
      cases value with
      | true => exact (Derives.truth hkind).loosen place.layer.le_unary
      | false => exact (Derives.falsehood hkind).loosen place.layer.le_unary
  | unary hkind _ ih =>
      intro place rest
      exact (Derives.unary hkind (ih .front rest)).loosen place.layer.le_unary
  | binary hoperator _ _ ihleft ihright =>
      intro place rest
      exact derives_binary_at hoperator ihleft ihright rest
  | conditional hword _ _ ihcondition ihconsequence =>
      intro place rest
      have hderives := Derives.conditional hword (marks.kind_token .lparen)
        (ihcondition .free _) (marks.kind_token .rparen) (ihconsequence rest)
      simpa [Expr.unparse, Expr.settle] using hderives.loosen place.layer.le_unary
  | alternative hword _ _ _ ihcondition ihconsequence ihalternative =>
      intro place rest
      have hderives := Derives.alternative hword (marks.kind_token .lparen)
        (ihcondition .free _) (marks.kind_token .rparen) (ihconsequence _)
        (marks.kind_token .elseWord) (ihalternative rest)
      simpa [Expr.unparse, Expr.settle] using hderives.loosen place.layer.le_unary
  | block hmark _ ih =>
      intro rest
      have hderives := Derives.closedBlock hmark
        (derives_unparseAll ih (marks.token .rbrace :: rest)) (marks.kind_token .rbrace)
      simpa [Block.unparse, Block.settle] using hderives
  | binding hword hname =>
      intro rest
      exact .binding hword hname (marks.kind_token .assign) (skips_semicolon rest)
  | result hword =>
      intro rest
      exact .result hword (skips_semicolon rest)
  | statement hvalue ih =>
      intro rest
      refine derives_unparse_statement ?_ ih rest
      intro hmissing
      rw [hmissing] at hvalue
      cases hvalue
  | program _ ih =>
      intro rest
      exact derives_unparseAll ih rest

end Derivations

def Node.PrintsEndFree (marks : Punctuation) : Node → Prop
  | program whole => EndFree (whole.unparse marks)
  | statement part => EndFree (part.unparse marks)
  | bound _ => True
  | block part => EndFree (part.unparse marks)
  | expression part => ∀ place : Place, EndFree (part.unparse marks place)

section Reading

variable {marks : Punctuation}

theorem endFree_unparseAll {statements : List Stmt}
    (hparts : ∀ part ∈ statements, (Node.statement part).PrintsEndFree marks) :
    EndFree (Stmt.unparseAll marks statements) := by
  induction statements with
  | nil => exact List.forall_mem_nil _
  | cons first others ih =>
      have hfirst := hparts first List.mem_cons_self
      have hothers := ih fun part hmem => hparts part (List.mem_cons_of_mem _ hmem)
      exact hfirst.append hothers

theorem Punctuation.endFree_cons {kind : Kind} {tokens : List Token} (hkind : kind ≠ .eof)
    (htokens : EndFree tokens) : EndFree (marks.token kind :: tokens) :=
  EndFree.cons (marks.kind_token kind) hkind htokens

theorem Node.WellFormed.printsEndFree {node : Node} (hnode : node.WellFormed) :
    node.PrintsEndFree marks := by
  have hnil : EndFree [] := List.forall_mem_nil _
  induction hnode with
  | name hkind => exact fun _ => hnil.cons hkind (by decide)
  | integer hkind _ => exact fun _ => hnil.cons hkind (by decide)
  | @boolean token value hkind =>
      intro place
      cases value <;> exact hnil.cons hkind (by decide)
  | @unary token operand hkind _ ih =>
      intro place
      have hfirst : token.kind ≠ .eof := by
        rcases hkind with hkind | hkind <;> rw [hkind] <;> decide
      exact (ih .front).cons rfl hfirst
  | @binary token layer left right hoperator _ _ ihleft ihright =>
      intro place
      have hfirst : token.kind ≠ .eof := by
        intro heof
        rw [heof, Layer.mem_operators_iff] at hoperator
        cases layer <;> contradiction
      have hbare := (ihleft (.left token.kind.precedence)).append
        ((ihright (.right token.kind.precedence)).cons rfl hfirst)
      rw [Expr.unparse]
      split
      · exact marks.endFree_cons (by decide)
          (hbare.append (marks.endFree_cons (by decide) hnil))
      · exact hbare
  | conditional hword _ _ ihcondition ihconsequence =>
      intro place
      apply EndFree.cons hword (by decide)
      apply marks.endFree_cons (by decide)
      apply (ihcondition .free).append
      exact marks.endFree_cons (by decide) ihconsequence
  | alternative hword _ _ _ ihcondition ihconsequence ihalternative =>
      intro place
      apply EndFree.cons hword (by decide)
      apply marks.endFree_cons (by decide)
      apply (ihcondition .free).append
      apply marks.endFree_cons (by decide)
      apply EndFree.append ihconsequence
      exact marks.endFree_cons (by decide) ihalternative
  | block hmark _ ih =>
      apply EndFree.cons hmark (by decide)
      apply (endFree_unparseAll ih).append
      exact marks.endFree_cons (by decide) hnil
  | binding hword hname =>
      apply EndFree.cons hword (by decide)
      apply EndFree.cons hname (by decide)
      apply marks.endFree_cons (by decide)
      exact marks.endFree_cons (by decide) hnil
  | result hword =>
      apply EndFree.cons hword (by decide)
      exact marks.endFree_cons (by decide) hnil
  | statement _ ih => exact (ih .free).append (marks.endFree_cons (by decide) hnil)
  | program _ ih => exact endFree_unparseAll ih

/-- Reading undoes printing. -/
theorem Program.read_unparse (marks : Punctuation) (program : Program) (endLine : Nat)
    (hwell : (Node.program program).WellFormed) :
    (Parser.start (program.unparse marks) endLine).program.1 = program.settle marks ∧
      (Parser.start (program.unparse marks) endLine).program.2.faults = [] := by
  have hfree : EndFree (program.unparse marks) := hwell.printsEndFree
  have hderives : Derives (.statements (program.settle marks).statements)
      (program.unparse marks) [] := by
    have hreproduces : (Node.program program).Reproduces marks := hwell.reproduces
    simpa using hreproduces []
  have hback : Parser.SequenceReadBack endLine (program.settle marks).statements
      (program.unparse marks) [] := Parser.readBack_of_derives hfree hderives
  exact Parser.clean_program_iff_reads.mpr ⟨[], (hback .program front_nil).2⟩

end Reading

def labelMarks : Punctuation :=
  ⟨fun kind => ⟨kind, kind.label, 1⟩, fun _ => rfl⟩

/-- The program `(a + 1) * -b;`, whose statement carries the token of the product. -/
def productProgram : Program :=
  ⟨[.expression ⟨.star, "*", 1⟩
      (.binary ⟨.star, "*", 1⟩
        (.binary ⟨.plus, "+", 1⟩ (.name ⟨⟨.ident, "a", 1⟩, "a"⟩) "+" (.integer ⟨.int, "1", 1⟩ 1))
        "*" (.unary ⟨.minus, "-", 1⟩ "-" (.name ⟨⟨.ident, "b", 1⟩, "b"⟩)))]⟩

theorem productProgram_read_unparse :
    (Node.program productProgram).WellFormed ∧
      (Parser.start (productProgram.unparse labelMarks) 1).program.1 =
        productProgram.settle labelMarks ∧
      (Parser.start (productProgram.unparse labelMarks) 1).program.2.faults = [] := by
  have hsum : Kind.plus ∈ Layer.sum.operators := by decide
  have hproduct : Kind.star ∈ Layer.product.operators := by decide
  have hwell : (Node.program productProgram).WellFormed := by
    apply Node.WellFormed.program
    intro part hmem
    rw [List.mem_singleton.mp hmem]
    apply Node.WellFormed.statement
    apply Node.WellFormed.binary hproduct
    · exact .binary hsum (.name rfl) (.integer rfl (by decide))
    · exact .unary (.inr rfl) (.name rfl)
  exact ⟨hwell, Program.read_unparse labelMarks productProgram 1 hwell⟩

end Scriptlet
