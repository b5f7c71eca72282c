import Scriptlet.Proofs.Run.Meaning
import Scriptlet.Proofs.Source.Spelling

/-!
# Reading rendered expressions

The text of an expression shows its grouping by parentheses, and reading it gives the
expression back, with all its tokens on the first line.  The text is cut into writings, one
for each token.  That they do not run together is a matter of neighbours only, and that
they derive the expression is seen without regard to precedence, because every operator
stands in parentheses of its own.
-/

namespace Scriptlet

/-- The literal of the token is a lexeme of its kind. -/
def Token.Legible (token : Token) : Prop :=
  Spells token.kind token.literal.toList

/-- The expression is complete and free of conditionals, and its nodes agree with tokens that
can be read. -/
inductive Expr.Legible : Expr → Prop
  | name {token : Token} (hkind : token.kind = .ident) (htoken : token.Legible) :
      Legible (.name ⟨token, token.literal⟩)
  | integer {token : Token} {value : Int} (hkind : token.kind = .int) (htoken : token.Legible)
      (hvalue : Numeral.value? token.literal = some value) : Legible (.integer token value)
  | boolean {token : Token} {value : Bool}
      (hkind : token.kind = if value then .trueWord else .falseWord) (htoken : token.Legible) :
      Legible (.boolean token value)
  | unary {token : Token} {operand : Expr} (hkind : token.kind = .bang ∨ token.kind = .minus)
      (htoken : token.Legible) (hoperand : Legible operand) :
      Legible (.unary token token.literal operand)
  | binary {token : Token} {layer : Layer} {left right : Expr}
      (hoperator : token.kind ∈ layer.operators) (htoken : token.Legible)
      (hleft : Legible left) (hright : Legible right) :
      Legible (.binary token left token.literal right)

/-- The tokens of an expression as its text has them, with the gap in front of each.  Braces are
not written, so a conditional cannot be cut into its tokens. -/
def Expr.writings (gap : List Char) : Expr → List Writing
  | .name identifier => [⟨gap, identifier.token.kind, identifier.text⟩]
  | .integer token _ => [⟨gap, token.kind, token.literal⟩]
  | .boolean token _ => [⟨gap, token.kind, token.literal⟩]
  | .unary token operator operand =>
    ⟨gap, .lparen, "("⟩ :: ⟨[], token.kind, operator⟩ ::
      (operand.writings [] ++ [⟨[], .rparen, ")"⟩])
  | .binary token left operator right =>
    ⟨gap, .lparen, "("⟩ :: (left.writings [] ++ ⟨[' '], token.kind, operator⟩ ::
      (right.writings [' '] ++ [⟨[], .rparen, ")"⟩]))
  | .missing | .conditional _ _ _ _ => []

def Relabelling.onLine (line : Nat) : Relabelling :=
  ⟨fun _ => line, id⟩

namespace Relabelling

@[simp] theorem text_onLine (line : Nat) (text : String) : (onLine line).text text = text :=
  rfl

@[simp] theorem token_onLine (line : Nat) (token : Token) :
    (onLine line).token token = ⟨token.kind, token.literal, line⟩ := by
  simp [onLine, Relabelling.token]

end Relabelling

def Writing.token (line : Nat) (writing : Writing) : Token :=
  ⟨writing.kind, writing.literal, line⟩

namespace Writing

/-- The writings do not run together. -/
def Apart (first second : Writing) : Prop :=
  first.kind.Merges second.kind → second.gap ≠ []

theorem isChain_opening {gap : List Char} {writings : List Writing}
    (hwritings : writings.IsChain Apart) :
    (Writing.mk gap .lparen "(" :: writings).IsChain Apart := by
  refine List.isChain_cons.mpr ⟨fun second _ hmerges => ?_, hwritings⟩
  simp [Kind.Merges, Kind.IsWord, keywords] at hmerges

theorem isChain_closing {gap : List Char} {writings : List Writing}
    (hwritings : writings.IsChain Apart) :
    (writings ++ [Writing.mk gap .rparen ")"]).IsChain Apart := by
  refine List.isChain_append.mpr ⟨hwritings, List.isChain_singleton _, ?_⟩
  intro first _ second hsecond hmerges
  cases hsecond
  simp [Kind.Merges, Kind.IsWord, keywords] at hmerges

end Writing

namespace Expr.Legible

variable {value : Expr}

theorem render_relabel (hvalue : value.Legible) (line : Nat) :
    (value.relabel (.onLine line)).render = value.render := by
  induction hvalue with
  | name | integer | boolean => simp [render, Identifier.relabel]
  | unary _ _ _ ih => simp [render, ih]
  | binary _ _ _ _ ihleft ihright => simp [render, ihleft, ihright]

theorem text_writings (hvalue : value.Legible) (gap : List Char) :
    (value.writings gap).flatMap Writing.text = gap ++ value.render.toList := by
  induction hvalue generalizing gap with
  | name | integer | boolean => simp [writings, render, Writing.text]
  | unary _ _ _ ih => simp [writings, render, Writing.text, ih]
  | binary _ _ _ _ ihleft ihright => simp [writings, render, Writing.text, ihleft, ihright]

theorem blank_of_mem_gap (hvalue : value.Legible) {gap : List Char} (hgap : ∀ c ∈ gap, c = ' ') :
    ∀ writing ∈ value.writings gap, ∀ c ∈ writing.gap, c = ' ' := by
  induction hvalue generalizing gap with
  | name | integer | boolean => simpa [writings] using hgap
  | unary _ _ _ ih => simpa [writings, or_imp, forall_and] using ⟨hgap, ih (by simp)⟩
  | binary _ _ _ _ ihleft ihright =>
      simpa [writings, or_imp, forall_and] using ⟨hgap, ihleft (by simp), ihright (by simp)⟩

theorem spelled (hvalue : value.Legible) (gap : List Char) :
    ∀ writing ∈ value.writings gap, Spells writing.kind writing.literal.toList := by
  have hopening : Spells .lparen "(".toList := .symbol (by decide) (by simp)
  have hclosing : Spells .rparen ")".toList := .symbol (by decide) (by simp)
  induction hvalue generalizing gap with
  | name _ htoken | integer _ htoken _ | boolean _ htoken =>
      simpa [writings, Token.Legible] using htoken
  | unary _ htoken _ ih =>
      simpa [writings, or_imp, forall_and] using ⟨hopening, htoken, ih [], hclosing⟩
  | binary _ htoken _ _ ihleft ihright =>
      simpa [writings, or_imp, forall_and] using
        ⟨hopening, ihleft [], htoken, ihright [' '], hclosing⟩

theorem exists_first (hvalue : value.Legible) (gap : List Char) :
    ∃ first others, value.writings gap = first :: others ∧ first.gap = gap ∧
      first.kind ∈ [.ident, .int, .trueWord, .falseWord, .lparen] := by
  cases hvalue with
  | name hkind _ | integer hkind _ _ => exact ⟨_, _, by rw [writings], rfl, by simp [hkind]⟩
  | @boolean _ value hkind _ =>
      refine ⟨_, _, by rw [writings], rfl, ?_⟩
      cases value <;> simp [hkind]
  | unary | binary => exact ⟨_, _, by rw [writings], rfl, by simp⟩

theorem apart (hvalue : value.Legible) (gap : List Char) :
    (value.writings gap).IsChain Writing.Apart := by
  induction hvalue generalizing gap with
  | name | integer | boolean => simp [writings]
  | @unary token operand hkind _ hoperand ih =>
      obtain ⟨first, others, hwritings, _, hfirst⟩ := hoperand.exists_first []
      rw [writings]
      refine Writing.isChain_opening (List.isChain_cons.mpr ⟨?_, Writing.isChain_closing (ih [])⟩)
      -- An operator in front runs together with an equality sign at most.
      intro second hsecond hmerges
      rw [hwritings] at hsecond
      cases hsecond
      simp only [List.mem_cons, List.not_mem_nil, or_false] at hfirst
      rcases hkind with hkind | hkind <;>
        rcases hfirst with hfirst | hfirst | hfirst | hfirst | hfirst <;>
          simp [hkind, hfirst, Kind.Merges, Kind.IsWord, keywords] at hmerges
  | @binary token layer left right _ _ _ hright ihleft ihright =>
      obtain ⟨first, others, hwritings, hgap, _⟩ := hright.exists_first [' ']
      rw [writings]
      apply Writing.isChain_opening
      refine List.isChain_append.mpr ⟨ihleft [], List.isChain_cons.mpr
        ⟨?_, Writing.isChain_closing (ihright [' '])⟩, ?_⟩
      · intro second hsecond _
        rw [hwritings] at hsecond
        cases hsecond
        simp [hgap]
      · intro last _ second hsecond _
        cases hsecond
        simp

theorem admissible (hvalue : value.Legible) : Admissible (value.writings []) [] where
  gaps writing hmem c hc := by
    rw [hvalue.blank_of_mem_gap (by simp) writing hmem c hc]
    decide
  last_gap := by simp
  spelled := hvalue.spelled []
  apart := hvalue.apart []

theorem tokens_render (hvalue : value.Legible) :
    (Source.ofString value.render).tokens = (value.writings []).map (Writing.token 1) := by
  have htext : Source.ofString value.render =
      ⟨(value.writings []).flatMap Writing.text ++ [], 1⟩ := by
    rw [hvalue.text_writings, List.append_nil, List.nil_append, Source.ofString]
  have hline : ∀ index, (((value.writings []).take index).flatMap Writing.gap).count '\n' = 0 := by
    intro index
    apply List.count_eq_zero.mpr
    intro hmem
    obtain ⟨writing, hwriting, hgap⟩ := List.mem_flatMap.mp hmem
    have hblank := hvalue.blank_of_mem_gap (by simp) writing (List.mem_of_mem_take hwriting) _ hgap
    contradiction
  rw [htext, Source.tokens_writings hvalue.admissible]
  apply List.ext_getElem
  · simp
  · simp [Writing.token, hline]

/-! ## The writings derive the expression -/

theorem derives (hvalue : value.Legible) (gap : List Char) (rest : List Token) :
    Derives (.expression .unary (value.relabel (.onLine 1)))
      ((value.writings gap).map (Writing.token 1) ++ rest) rest := by
  induction hvalue generalizing gap rest with
  | @name token hkind _ =>
      have hname := @Derives.name ⟨token.kind, token.literal, 1⟩ rest hkind
      simpa [writings, Writing.token, Identifier.relabel] using hname
  | @integer token value hkind _ hvalue =>
      have hinteger := @Derives.integer ⟨token.kind, token.literal, 1⟩ value rest hkind hvalue
      simpa [writings, Writing.token] using hinteger
  | @boolean token value hkind _ =>
      have hboolean : Derives (.expression .unary (.boolean ⟨token.kind, token.literal, 1⟩ value))
          (⟨token.kind, token.literal, 1⟩ :: rest) rest := by
        cases value with
        | true => exact .truth hkind
        | false => exact .falsehood hkind
      simpa [writings, Writing.token] using hboolean
  | @unary token operand hkind _ _ ih =>
      have hunary := @Derives.unary ⟨token.kind, token.literal, 1⟩ _ _ _ hkind
        (ih [] (⟨.rparen, ")", 1⟩ :: rest))
      have hgroup := @Derives.group ⟨.lparen, "(", 1⟩ _ _ _ _ rfl
        (hunary.loosen (Layer.le_unary _)) rfl
      simpa [writings, Writing.token] using hgroup
  | @binary token layer left right hoperator _ _ _ ihleft ihright =>
      have hright := ihright [' '] (⟨.rparen, ")", 1⟩ :: rest)
      have hleft := ihleft [] (⟨token.kind, token.literal, 1⟩ ::
        ((right.writings [' ']).map (Writing.token 1) ++ ⟨.rparen, ")", 1⟩ :: rest))
      have hbinary := Derives.binary (hleft.loosen layer.le_unary) hoperator
        (hright.loosen (Layer.le_unary _))
      have hgroup := @Derives.group ⟨.lparen, "(", 1⟩ _ _ _ _ rfl
        (hbinary.loosen (show Layer.equality ≤ layer by cases layer <;> decide)) rfl
      simpa [writings, Writing.token] using hgroup

end Expr.Legible

/-- Reading the text of an expression gives the expression back on one line, without a fault and
with nothing else, and that expression has the same text. -/
theorem Expr.read_render (value : Expr) (hvalue : value.Legible) :
    let read := (Parser.ofSource (.ofString value.render)).program
    read.2.faults = [] ∧
      ∃ first again, read.1.statements = [.expression first again] ∧
        again = value.relabel (.onLine 1) ∧ again.render = value.render := by
  intro read
  obtain ⟨first, others, hwritings, _⟩ := hvalue.exists_first []
  have hfree := (Source.ofString value.render).endFree_tokens
  have hderives : Derives (.statements [.expression (first.token 1) (value.relabel (.onLine 1))])
      (Source.ofString value.render).tokens [] := by
    have hexpression := (hvalue.derives [] []).loosen (Layer.le_unary .equality)
    rw [List.append_nil, hwritings, List.map_cons] at hexpression
    rw [hvalue.tokens_render, hwritings, List.map_cons]
    exact .cons (.openExpression hexpression front_nil) .nil
  have hback : Parser.SequenceReadBack (Source.ofString value.render).endLine _
      (Source.ofString value.render).tokens [] := Parser.readBack_of_derives hfree hderives
  have hread := (hback .program front_nil).2
  exact ⟨hread.faults_eq, _, _, hread.value_eq, rfl, hvalue.render_relabel 1⟩

/-- The expression `-a * (010 == true)`, with its tokens on several lines. -/
def scatteredExpr : Expr :=
  .binary ⟨.star, "*", 4⟩ (.unary ⟨.minus, "-", 2⟩ "-" (.name ⟨⟨.ident, "a", 3⟩, "a"⟩)) "*"
    (.binary ⟨.equal, "==", 6⟩ (.integer ⟨.int, "010", 5⟩ 8) "=="
      (.boolean ⟨.trueWord, "true", 9⟩ true))

theorem scatteredExpr_read_render :
    scatteredExpr.Legible ∧ scatteredExpr.render = "((-a) * (010 == true))" ∧
      (Parser.ofSource (.ofString scatteredExpr.render)).program.2.faults = [] ∧
      ∃ first again,
        (Parser.ofSource (.ofString scatteredExpr.render)).program.1.statements =
          [.expression first again] ∧
        again = scatteredExpr.relabel (.onLine 1) ∧ again.render = scatteredExpr.render := by
  have hname : Token.Legible ⟨.ident, "a", 3⟩ :=
    .name (by simp) (by simp [WordChar]) (by simp [keywords]) (by simp)
  have hnumber : Token.Legible ⟨.int, "010", 5⟩ :=
    .number (by simp) (by simp [DigitChar]) (by simp)
  have htruth : Token.Legible ⟨.trueWord, "true", 9⟩ := .keyword (by decide) (by simp)
  have hminus : Token.Legible ⟨.minus, "-", 2⟩ := .symbol (by decide) (by simp)
  have hstar : Token.Legible ⟨.star, "*", 4⟩ := .symbol (by decide) (by simp)
  have hequal : Token.Legible ⟨.equal, "==", 6⟩ := .comparison (by decide)
  have hproduct : Kind.star ∈ Layer.product.operators := by decide
  have hequality : Kind.equal ∈ Layer.equality.operators := by decide
  have hlegible : scatteredExpr.Legible := by
    apply Expr.Legible.binary hproduct hstar
    · exact .unary (.inr rfl) hminus (.name rfl hname)
    · exact .binary hequality hequal (.integer rfl hnumber (by decide)) (.boolean rfl htruth)
  exact ⟨hlegible, by decide +kernel, Expr.read_render scatteredExpr hlegible⟩

end Scriptlet
