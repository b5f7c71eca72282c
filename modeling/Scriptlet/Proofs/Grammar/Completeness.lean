import Scriptlet.Proofs.Grammar.Soundness

/-!
# Derivations are read back

What the grammar derives, the parser reads without a fault and with the same tree.  An
expression of a layer is not read in one piece: behind it the chain over the floor may go
on.  So its statement takes any reading of the chain that continues the derived tree and
gives a reading of the whole, if neither a tighter operator follows nor an `else`, which
a conditional at the end would take for its own.
-/

namespace Scriptlet

/-- What may stand behind an expression of a layer. -/
def Layer.Admits (layer : Layer) (rest : List Token) : Prop :=
  Front (fun token => token.kind.precedence ≤ layer.precedence ∧ token.kind ≠ .elseWord) rest

/-- What stands behind a statement: the beginning of another one, or the end of
the statements. -/
def FollowsStatement (rest : List Token) : Prop :=
  Front (fun token => token.kind ≠ .semicolon ∧ token.kind ≠ .elseWord ∧
    (token.kind.precedence = .lowest ∨ token.kind = .minus)) rest

theorem Layer.Admits.mono {loose tight : Layer} {rest : List Token} (hle : loose ≤ tight)
    (hadmits : loose.Admits rest) : tight.Admits rest :=
  hadmits.imp fun _ htoken => ⟨Nat.le_trans htoken.1 hle, htoken.2⟩

namespace Parser

open Step

variable {endLine : Nat} {whole : Prop}

theorem reads_chain_of_stops {floor : Precedence} {left : Expr} {rest : List Token}
    (hstops : Stops floor rest) : (chain endLine floor left rest).Reads whole left rest := by
  rw [chain_of_stops hstops]
  exact reads_pure_iff.mpr ⟨rfl, rfl⟩

theorem reads_chain_operator {floor : Precedence} {left right value : Expr} {operator : Token}
    {input middle rest : List Token} (hfloor : floor < operator.kind.precedence)
    (hright : (expression endLine operator.kind.precedence input).Reads whole right middle)
    (hchain : (chain endLine floor (.binary operator left operator.literal right) middle).Reads
      whole value rest) :
    (chain endLine floor left (operator :: input)).Reads whole value rest := by
  rw [chain, if_pos hfloor, reads_behind_iff, reads_bind_iff]
  exact ⟨right, middle, hright.length_le, hright, hchain⟩

theorem reads_expression_of_operand {floor : Precedence} (opening : Opening) {token : Token}
    {left value : Expr} {input middle rest : List Token} (hkind : token.kind ∈ opening.kinds)
    (hoperand : (operand endLine opening token input).Reads whole left middle)
    (hchain : (chain endLine floor left middle).Reads whole value rest) :
    (expression endLine floor (token :: input)).Reads whole value rest := by
  rw [expression, reads_behind_iff, expressionFrom, Kind.opening?_eq_some_iff.mpr hkind]
  exact reads_bind_iff.mpr ⟨left, middle, hoperand.length_le, hoperand, hchain⟩

theorem reads_of_skips {input rest : List Token} (hfree : EndFree input)
    (hskips : Skips input rest) : (skipStatement input).Reads False () rest := by
  rw [reads_skipStatement_iff]
  cases hskips with
  | @semicolon skipped rest mark hskipped hmark =>
      refine .inl ⟨skipped, mark, ?_, .inl hmark, rfl⟩
      intro token hmem
      exact not_or.mpr ⟨hskipped token hmem, hfree token (List.mem_append_left _ hmem)⟩
  | ending hskipped =>
      refine .inr ⟨not_false, rfl, ?_⟩
      intro token hmem
      exact not_or.mpr ⟨hskipped token hmem, hfree token hmem⟩

section Statements

variable (endLine : Nat)

/-- The tokens begin with an operand, and every reading of a chain behind the
tree is a reading of the whole. -/
structure ExpressionReadBack (layer : Layer) (value : Expr) (input rest : List Token) :
    Prop where
  begins : ∃ token tail opening, input = token :: tail ∧ token.kind ∈ Opening.kinds opening
  continues : ∀ floor, Layer.above floor ≤ layer → layer.Admits rest →
    ∀ final last, (chain endLine floor value rest).Reads False final last →
      (expression endLine floor input).Reads False final last

/-- The tokens begin with something that ends no scope, and what is behind their
first token is read as the statement. -/
def StatementReadBack (value : Stmt) (input rest : List Token) : Prop :=
  ∃ token tail, input = token :: tail ∧ FollowsStatement input ∧
    (∀ scope : Scope, scope.endsAt token.kind = false) ∧
    (FollowsStatement rest → (statement endLine token tail).Reads False (some value) rest)

def SequenceReadBack (values : List Stmt) (input rest : List Token) : Prop :=
  ∀ scope : Scope, Front (fun token => scope.endsAt token.kind = true) rest →
    FollowsStatement input ∧ (sequence endLine scope input).Reads False values rest

/-- What is to be proved of a derivation of the phrase. -/
def ReadBack : Phrase → List Token → List Token → Prop
  | .expression layer value => ExpressionReadBack endLine layer value
  | .block value => fun input rest => (braced endLine input).Reads False (some value) rest
  | .statement value => StatementReadBack endLine value
  | .statements values => SequenceReadBack endLine values

end Statements

theorem ExpressionReadBack.reads {layer : Layer} {value : Expr} {input rest : List Token}
    {floor : Precedence} (hback : ExpressionReadBack endLine layer value input rest)
    (hfloor : Layer.above floor ≤ layer) (hadmits : layer.Admits rest)
    (hstops : Stops floor rest) : (expression endLine floor input).Reads False value rest :=
  hback.continues floor hfloor hadmits value rest (reads_chain_of_stops hstops)

theorem expressionReadBack_operand (opening : Opening) {token : Token} {value : Expr}
    {input rest : List Token} (hkind : token.kind ∈ opening.kinds)
    (hoperand : Layer.unary.Admits rest →
      (operand endLine opening token input).Reads False value rest) :
    ExpressionReadBack endLine .unary value (token :: input) rest := by
  refine ⟨⟨token, input, opening, rfl, hkind⟩, ?_⟩
  intro floor _ hadmits final last hchain
  exact reads_expression_of_operand opening hkind (hoperand hadmits) hchain

theorem expressionReadBack_single {layer : Layer} {value : Expr} {input rest : List Token}
    (hback : ExpressionReadBack endLine layer.tighter value input rest) :
    ExpressionReadBack endLine layer value input rest := by
  refine ⟨hback.begins, ?_⟩
  intro floor hfloor hadmits final last hchain
  exact hback.continues floor (Layer.le_trans hfloor layer.le_tighter)
    (hadmits.mono layer.le_tighter) final last hchain

theorem expressionReadBack_binary {layer : Layer} {operator : Token} {left right : Expr}
    {input middle rest : List Token}
    (hleft : ExpressionReadBack endLine layer left input (operator :: middle))
    (hoperator : operator.kind ∈ layer.operators)
    (hright : ExpressionReadBack endLine layer.tighter right middle rest) :
    ExpressionReadBack endLine layer (.binary operator left operator.literal right) input rest := by
  refine ⟨hleft.begins, ?_⟩
  intro floor hfloor hadmits final last hchain
  have hprecedence := Layer.precedence_of_mem_operators hoperator
  have hstops : Stops operator.kind.precedence rest := fun token htoken =>
    Layer.not_precedence_lt_of_le hoperator (hadmits token htoken).1
  have hrightReads :
      (expression endLine operator.kind.precedence middle).Reads False right rest := by
    refine hright.reads ?_ (hadmits.mono layer.le_tighter) hstops
    rw [Layer.above_precedence hoperator]
    exact Layer.le_refl _
  have helse : operator.kind ≠ .elseWord := by
    intro helse
    rw [helse] at hprecedence
    cases layer <;> cases hprecedence
  have hadmitsOperator : layer.Admits (operator :: middle) :=
    front_cons_iff.mpr ⟨hprecedence ▸ Nat.le_refl _, helse⟩
  refine hleft.continues floor hfloor hadmitsOperator final last ?_
  exact reads_chain_operator (Layer.lt_precedence_of_mem hfloor hoperator) hrightReads hchain

theorem ExpressionReadBack.reads_enclosed {value : Expr} {closing : Token}
    {input rest : List Token}
    (hback : ExpressionReadBack endLine .equality value input (closing :: rest))
    (hclosing : closing.kind = .rparen) :
    (enclosed endLine input).Reads False (some value) rest := by
  have hadmits : Layer.equality.Admits (closing :: rest) := by
    simp only [Layer.Admits, front_cons_iff, hclosing]
    decide
  have hstops : Stops .lowest (closing :: rest) := by
    simp only [Stops, front_cons_iff, hclosing]
    decide
  have hvalue := hback.reads (Layer.le_refl _) hadmits hstops
  rw [enclosed, reads_bind_iff]
  refine ⟨value, closing :: rest, hvalue.length_le, hvalue, ?_⟩
  exact reads_map_iff.mpr ⟨some closing, reads_expect_cons hclosing, rfl⟩

theorem reads_operand_unary {token : Token} {value : Expr} {input rest : List Token}
    (hback : ExpressionReadBack endLine .unary value input rest)
    (hadmits : Layer.unary.Admits rest) :
    (operand endLine .unary token input).Reads False (.unary token token.literal value) rest := by
  have hstops : Stops .unary rest := fun next _ =>
    Nat.not_lt.mpr (Layer.precedence_le_unary next.kind)
  rw [operand, reads_map_iff]
  exact ⟨value, hback.reads (Layer.le_refl _) hadmits hstops, rfl⟩

/-- What is read of a conditional behind its first block and behind the word
`other`, if that word is there. -/
def conditionalTail (endLine : Nat) (token : Token) (condition : Expr) (consequence : Block)
    (other : Option Token) (input : List Token) : Step Expr input :=
  match other with
  | none => .pure (.conditional token condition consequence none)
  | some _ =>
    (braced endLine input).andThen .missing fun alternative _ _ =>
      .pure (.conditional token condition consequence (some alternative))

theorem operand_conditional (endLine : Nat) (token : Token) (input : List Token) :
    operand endLine .conditional token input =
      (expect endLine .lparen input).andThen .missing fun _ rest _ =>
        (enclosed endLine rest).andThen .missing fun condition rest _ =>
          (braced endLine rest).andThen .missing fun consequence rest _ =>
            (accept .elseWord rest).bind fun other rest _ =>
              conditionalTail endLine token condition consequence other rest := by
  rw [operand]
  rfl

theorem reads_operand_conditional {token opening : Token} {condition value : Expr}
    {consequence : Block} {other : Option Token}
    {input afterCondition afterConsequence afterOther rest : List Token}
    (hopening : opening.kind = .lparen)
    (hcondition : (enclosed endLine input).Reads False (some condition) afterCondition)
    (hconsequence : (braced endLine afterCondition).Reads False (some consequence)
      afterConsequence)
    (hother : (accept .elseWord afterConsequence).Reads False other afterOther)
    (hvalue : (conditionalTail endLine token condition consequence other afterOther).Reads
      False value rest) :
    (operand endLine .conditional token (opening :: input)).Reads False value rest := by
  rw [operand_conditional]
  refine reads_bind_iff.mpr
    ⟨some opening, input, Nat.le_succ _, reads_expect_cons hopening, ?_⟩
  refine reads_bind_iff.mpr
    ⟨some condition, afterCondition, hcondition.length_le, hcondition, ?_⟩
  refine reads_bind_iff.mpr
    ⟨some consequence, afterConsequence, hconsequence.length_le, hconsequence, ?_⟩
  exact reads_bind_iff.mpr ⟨other, afterOther, hother.length_le, hother, hvalue⟩

theorem reads_conditionalTail_some {token : Token} {condition : Expr}
    {consequence alternative : Block} {other : Token} {input rest : List Token}
    (halternative : (braced endLine input).Reads False (some alternative) rest) :
    (conditionalTail endLine token condition consequence (some other) input).Reads False
      (.conditional token condition consequence (some alternative)) rest := by
  rw [conditionalTail, andThen, reads_bind_iff]
  refine ⟨some alternative, rest, halternative.length_le, halternative, ?_⟩
  exact reads_pure_iff.mpr ⟨rfl, rfl⟩

theorem followsStatement_of_ends {scope : Scope} {rest : List Token}
    (hends : Ends scope rest) : FollowsStatement rest := by
  refine Front.imp hends ?_
  intro token hend
  have hkind : token.kind = .eof ∨ token.kind = .rbrace := by
    cases scope with
    | program => exact .inl (by simpa [Scope.endsAt] using hend)
    | block => simpa [Scope.endsAt] using hend
  rcases hkind with hkind | hkind
  · rw [hkind]
    decide
  · rw [hkind]
    decide

theorem followsStatement_of_begins {token : Token} {opening : Opening} {tail : List Token}
    (hkind : token.kind ∈ opening.kinds) : FollowsStatement (token :: tail) := by
  rw [FollowsStatement, front_cons_iff]
  revert hkind
  generalize token.kind = kind
  revert kind
  cases opening <;> simp [Opening.kinds, Kind.precedence]

theorem endsAt_eq_false_of_begins {kind : Kind} {opening : Opening}
    (hkind : kind ∈ opening.kinds) (scope : Scope) : scope.endsAt kind = false := by
  revert kind
  cases opening <;> cases scope <;> simp [Opening.kinds, Scope.endsAt]

theorem reads_sequence_of_ends {scope : Scope} {rest : List Token} (hends : Ends scope rest) :
    (sequence endLine scope rest).Reads whole [] rest := by
  rw [sequence_of_ends hends]
  exact reads_pure_iff.mpr ⟨rfl, rfl⟩

theorem reads_sequence_cons {scope : Scope} {token : Token} {first : Stmt}
    {others : List Stmt} {input middle rest : List Token}
    (hends : scope.endsAt token.kind = false)
    (hfirst : (statement endLine token input).Reads whole (some first) middle)
    (hothers : (sequence endLine scope middle).Reads whole others rest) :
    (sequence endLine scope (token :: input)).Reads whole (first :: others) rest := by
  rw [sequence, if_neg (by simp [hends]), reads_behind_iff, reads_bind_iff]
  refine ⟨some first, middle, hfirst.length_le, hfirst, ?_⟩
  exact reads_map_iff.mpr ⟨others, hothers, rfl⟩

theorem reads_block {mark : Token} {statements : List Stmt} {input middle rest : List Token}
    (hstatements : (sequence endLine .block input).Reads whole statements middle)
    (hadvance : (advance middle).Reads whole () rest) :
    (block endLine mark input).Reads whole (.mk mark statements) rest := by
  rw [block, reads_bind_iff]
  refine ⟨statements, middle, hstatements.length_le, hstatements, ?_⟩
  exact reads_map_iff.mpr ⟨(), hadvance, rfl⟩

theorem reads_braced {mark : Token} {value : Block} {input rest : List Token}
    (hmark : mark.kind = .lbrace) (hvalue : (block endLine mark input).Reads whole value rest) :
    (braced endLine (mark :: input)).Reads whole (some value) rest := by
  rw [braced, andThen, reads_bind_iff]
  refine ⟨some mark, input, Nat.le_succ _, reads_expect_cons hmark, ?_⟩
  exact reads_map_iff.mpr ⟨value, hvalue, rfl⟩

theorem reads_statement_binding {word name sign : Token} {input rest : List Token}
    (hword : word.kind = .letWord) (hname : name.kind = .ident) (hsign : sign.kind = .assign)
    (hskip : (skipStatement input).Reads whole () rest) :
    (statement endLine word (name :: sign :: input)).Reads whole
      (some (.binding word ⟨name, name.literal⟩ .missing)) rest := by
  rw [statement, hword]
  simp only [binding, andThen]
  refine reads_bind_iff.mpr
    ⟨some name, sign :: input, Nat.le_succ _, reads_expect_cons hname, ?_⟩
  refine reads_bind_iff.mpr
    ⟨some sign, input, Nat.le_succ _, reads_expect_cons hsign, ?_⟩
  exact reads_map_iff.mpr ⟨(), hskip, rfl⟩

theorem reads_statement_result {word : Token} {input rest : List Token}
    (hword : word.kind = .returnWord) (hskip : (skipStatement input).Reads whole () rest) :
    (statement endLine word input).Reads whole (some (.result word .missing)) rest := by
  rw [statement, hword]
  exact reads_map_iff.mpr ⟨(), hskip, rfl⟩

theorem reads_statement_expression {first : Token} {value : Expr} {opening : Opening}
    {mark : Option Token} {input middle rest : List Token}
    (hkind : first.kind ∈ opening.kinds)
    (hvalue : (expression endLine .lowest (first :: input)).Reads whole value middle)
    (hmark : (accept .semicolon middle).Reads whole mark rest) :
    (statement endLine first input).Reads whole (some (.expression first value)) rest := by
  have hlet : first.kind ≠ .letWord := by
    intro hlet
    rw [hlet] at hkind
    cases opening <;> simp [Opening.kinds] at hkind
  have hreturn : first.kind ≠ .returnWord := by
    intro hreturn
    rw [hreturn] at hkind
    cases opening <;> simp [Opening.kinds] at hkind
  rw [expression, reads_behind_iff] at hvalue
  rw [statement_eq_expression hlet hreturn, reads_bind_iff]
  refine ⟨value, middle, hvalue.length_le, hvalue, ?_⟩
  exact reads_map_iff.mpr ⟨mark, hmark, rfl⟩

theorem statementReadBack_closed {first mark : Token} {value : Expr} {input rest : List Token}
    (hback : ExpressionReadBack endLine .equality value (first :: input) (mark :: rest))
    (hmark : mark.kind = .semicolon) :
    StatementReadBack endLine (.expression first value) (first :: input) rest := by
  obtain ⟨token, tail, opening, hinput, hkind⟩ := hback.begins
  obtain ⟨rfl, rfl⟩ := List.cons.inj hinput
  refine ⟨first, input, rfl, followsStatement_of_begins hkind,
    endsAt_eq_false_of_begins hkind, ?_⟩
  intro _
  have hadmits : Layer.equality.Admits (mark :: rest) := by
    simp only [Layer.Admits, front_cons_iff, hmark]
    decide
  have hstops : Stops .lowest (mark :: rest) := by
    simp only [Stops, front_cons_iff, hmark]
    decide
  have haccept : (accept .semicolon (mark :: rest)).Reads False (some mark) rest :=
    reads_accept_iff.mpr (.inl ⟨mark, rfl, hmark, rfl⟩)
  exact reads_statement_expression hkind (hback.reads (Layer.le_refl _) hadmits hstops) haccept

theorem statementReadBack_open {first : Token} {value : Expr} {input rest : List Token}
    (hback : ExpressionReadBack endLine .equality value (first :: input) rest)
    (hnext : Front (fun token => token.kind ≠ .minus) rest) :
    StatementReadBack endLine (.expression first value) (first :: input) rest := by
  obtain ⟨token, tail, opening, hinput, hkind⟩ := hback.begins
  obtain ⟨rfl, rfl⟩ := List.cons.inj hinput
  refine ⟨first, input, rfl, followsStatement_of_begins hkind,
    endsAt_eq_false_of_begins hkind, ?_⟩
  intro hfollows
  have hlowest : Front (fun token => token.kind.precedence = .lowest) rest := by
    intro token htoken
    rcases (hfollows token htoken).2.2 with hlowest | hminus
    · exact hlowest
    · exact absurd hminus (hnext token htoken)
  have hadmits : Layer.equality.Admits rest := by
    intro token htoken
    refine ⟨?_, (hfollows token htoken).2.1⟩
    rw [hlowest token htoken]
    decide
  have hstops : Stops .lowest rest := by
    intro token htoken
    rw [hlowest token htoken]
    decide
  have haccept : (accept .semicolon rest).Reads False none rest :=
    reads_accept_iff.mpr (.inr ⟨rfl, rfl, fun token htoken => (hfollows token htoken).1⟩)
  exact reads_statement_expression hkind (hback.reads (Layer.le_refl _) hadmits hstops) haccept

theorem statementReadBack_word {word : Token} {value : Stmt} {input rest : List Token}
    (hword : word.kind = .letWord ∨ word.kind = .returnWord)
    (hread : (statement endLine word input).Reads False (some value) rest) :
    StatementReadBack endLine value (word :: input) rest := by
  refine ⟨word, input, rfl, ?_, ?_, fun _ => hread⟩
  · rw [FollowsStatement, front_cons_iff]
    rcases hword with hword | hword <;> rw [hword] <;> decide
  · intro scope
    rcases hword with hword | hword <;> rw [hword] <;> cases scope <;> rfl

theorem sequenceReadBack_cons {first : Stmt} {others : List Stmt}
    {input middle rest : List Token} (hfirst : StatementReadBack endLine first input middle)
    (hothers : SequenceReadBack endLine others middle rest) :
    SequenceReadBack endLine (first :: others) input rest := by
  intro scope hends
  obtain ⟨token, tail, rfl, hfollows, hscope, hreads⟩ := hfirst
  obtain ⟨hmiddle, hsequence⟩ := hothers scope hends
  exact ⟨hfollows, reads_sequence_cons (hscope scope) (hreads hmiddle) hsequence⟩

/-! ## All phrases together -/

theorem readBack_of_derives {phrase : Phrase} {input rest : List Token} (hfree : EndFree input)
    (hderives : Derives phrase input rest) : ReadBack endLine phrase input rest := by
  induction hderives with
  | name hkind =>
      refine expressionReadBack_operand .name (List.mem_singleton.mpr hkind) ?_
      intro _
      rw [operand]
      exact reads_pure_iff.mpr ⟨rfl, rfl⟩
  | integer hkind hvalue =>
      refine expressionReadBack_operand .integer (List.mem_singleton.mpr hkind) ?_
      intro _
      rw [operand, integer, hvalue]
      exact reads_pure_iff.mpr ⟨rfl, rfl⟩
  | truth hkind =>
      refine expressionReadBack_operand .boolean (by simp [Opening.kinds, hkind]) ?_
      intro _
      rw [operand, hkind]
      exact reads_pure_iff.mpr ⟨rfl, rfl⟩
  | falsehood hkind =>
      refine expressionReadBack_operand .boolean (by simp [Opening.kinds, hkind]) ?_
      intro _
      rw [operand, hkind]
      exact reads_pure_iff.mpr ⟨rfl, rfl⟩
  | unary hkind hoperand ih =>
      refine expressionReadBack_operand .unary (by simpa [Opening.kinds] using hkind) ?_
      intro hadmits
      exact reads_operand_unary (ih hfree.tail) hadmits
  | group hopening hinner hclosing ih =>
      refine expressionReadBack_operand .group (List.mem_singleton.mpr hopening) ?_
      intro _
      rw [operand, reads_map_iff]
      exact ⟨_, (ih hfree.tail).reads_enclosed hclosing, rfl⟩
  | conditional hword hopening hcondition hclosing hconsequence ihcondition ihconsequence =>
      refine expressionReadBack_operand .conditional (List.mem_singleton.mpr hword) ?_
      intro hadmits
      have hfreeInput := hfree.tail.tail
      have hfreeMiddle := (hfreeInput.of_suffix hcondition.suffix).tail
      refine reads_operand_conditional hopening
        ((ihcondition hfreeInput).reads_enclosed hclosing) (ihconsequence hfreeMiddle)
        (reads_accept_iff.mpr (.inr ⟨rfl, rfl, ?_⟩)) (reads_pure_iff.mpr ⟨rfl, rfl⟩)
      exact hadmits.imp fun _ htoken => htoken.2
  | alternative hword hopening hcondition hclosing hconsequence hother halternative ihcondition
      ihconsequence ihalternative =>
      refine expressionReadBack_operand .conditional (List.mem_singleton.mpr hword) ?_
      intro _
      have hfreeInput := hfree.tail.tail
      have hfreeMiddle := (hfreeInput.of_suffix hcondition.suffix).tail
      have hfreeLast := (hfreeMiddle.of_suffix hconsequence.suffix).tail
      exact reads_operand_conditional hopening
        ((ihcondition hfreeInput).reads_enclosed hclosing) (ihconsequence hfreeMiddle)
        (reads_accept_iff.mpr (.inl ⟨_, rfl, hother, rfl⟩))
        (reads_conditionalTail_some (ihalternative hfreeLast))
  | single hvalue ih => exact expressionReadBack_single (ih hfree)
  | binary hleft hoperator hright ihleft ihright =>
      exact expressionReadBack_binary (ihleft hfree) hoperator
        (ihright (hfree.of_suffix hleft.suffix).tail)
  | closedBlock hmark hstatements hclosing ih =>
      refine reads_braced hmark (reads_block (ih hfree.tail .block ?_).2 reads_advance_cons)
      rw [front_cons_iff, hclosing]
      rfl
  | endingBlock hmark hstatements ih =>
      exact reads_braced hmark (reads_block (ih hfree.tail .block front_nil).2 reads_advance_nil)
  | binding hword hname hsign hvalue =>
      have hskip := reads_of_skips hfree.tail.tail.tail hvalue
      exact statementReadBack_word (.inl hword) (reads_statement_binding hword hname hsign hskip)
  | result hword hvalue =>
      have hskip := reads_of_skips hfree.tail hvalue
      exact statementReadBack_word (.inr hword) (reads_statement_result hword hskip)
  | closedExpression hvalue hmark ih => exact statementReadBack_closed (ih hfree) hmark
  | openExpression hvalue hnext ih => exact statementReadBack_open (ih hfree) hnext
  | nil =>
      intro scope hends
      exact ⟨followsStatement_of_ends hends, reads_sequence_of_ends hends⟩
  | cons hfirst hothers ihfirst ihothers =>
      exact sequenceReadBack_cons (ihfirst hfree) (ihothers (hfree.of_suffix hfirst.suffix))

end Parser

end Scriptlet
