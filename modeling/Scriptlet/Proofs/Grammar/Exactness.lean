import Scriptlet.Proofs.Grammar.Completeness

/-!
# The parser accepts exactly the grammar

Soundness and completeness meet at whole programs.  Nothing is left behind a
program, so no condition on what follows remains, and the two directions give an
equivalence: the parser returns a tree without a fault if and only if the grammar
derives that tree.
-/

namespace Scriptlet.Parser

open Step

theorem clean_program_iff_reads {tokens : List Token} {endLine : Nat} {program : Program} :
    ((start tokens endLine).program.1 = program ∧ (start tokens endLine).program.2.faults = []) ↔
      ∃ rest, (sequence endLine .program tokens).Reads False program.statements rest := by
  constructor
  · intro hclean
    obtain ⟨hprogram, hfaults⟩ := hclean
    have hstatements : (sequence endLine .program tokens).value = program.statements :=
      congrArg Program.statements hprogram
    exact ⟨_, hfaults, hstatements, rfl, False.elim⟩
  · intro hreads
    obtain ⟨rest, hread⟩ := hreads
    have hprogram : (⟨(sequence endLine .program tokens).value⟩ : Program) = program :=
      congrArg Program.mk hread.value_eq
    exact ⟨hprogram, hread.faults_eq⟩

theorem rest_eq_nil_of_ends {tokens rest : List Token} (hfree : EndFree tokens)
    (hsuffix : rest <:+ tokens)
    (hends : Front (fun token => Scope.program.endsAt token.kind = true) rest) : rest = [] := by
  cases rest with
  | nil => rfl
  | cons token tail =>
      have hend : token.kind = .eof := by
        simpa [Scope.endsAt] using front_cons_iff.mp hends
      exact absurd hend (hfree.of_suffix hsuffix token List.mem_cons_self)

theorem clean_program_iff_derives (tokens : List Token) (endLine : Nat) (program : Program)
    (hfree : ∀ token ∈ tokens, token.kind ≠ .eof) :
    ((start tokens endLine).program.1 = program ∧ (start tokens endLine).program.2.faults = []) ↔
      Derives (.statements program.statements) tokens [] := by
  rw [clean_program_iff_reads]
  constructor
  · intro hreads
    obtain ⟨rest, hread⟩ := hreads
    obtain ⟨hderives, hends⟩ :=
      sequenceSound endLine .program tokens hfree program.statements rest hread
    rwa [rest_eq_nil_of_ends hfree hread.suffix hends] at hderives
  · intro hderives
    have hback : SequenceReadBack endLine program.statements tokens [] :=
      readBack_of_derives hfree hderives
    exact ⟨[], (hback .program front_nil).2⟩

/-- The tokens of `-a + 1` on one line and `if (x) \x7b let y =` on the next. -/
def unfinishedTokens : List Token :=
  [⟨.minus, "-", 1⟩, ⟨.ident, "a", 1⟩, ⟨.plus, "+", 1⟩, ⟨.int, "1", 1⟩,
    ⟨.ifWord, "if", 2⟩, ⟨.lparen, "(", 2⟩, ⟨.ident, "x", 2⟩, ⟨.rparen, ")", 2⟩,
    ⟨.lbrace, "\x7b", 2⟩, ⟨.letWord, "let", 2⟩, ⟨.ident, "y", 2⟩, ⟨.assign, "=", 2⟩]

/-- Two statements, of which the second holds a block and a binding that end with
the input. -/
def unfinishedProgram : Program :=
  ⟨[.expression ⟨.minus, "-", 1⟩
      (.binary ⟨.plus, "+", 1⟩
        (.unary ⟨.minus, "-", 1⟩ "-" (.name ⟨⟨.ident, "a", 1⟩, "a"⟩)) "+"
        (.integer ⟨.int, "1", 1⟩ 1)),
    .expression ⟨.ifWord, "if", 2⟩
      (.conditional ⟨.ifWord, "if", 2⟩ (.name ⟨⟨.ident, "x", 2⟩, "x"⟩)
        (.mk ⟨.lbrace, "\x7b", 2⟩
          [.binding ⟨.letWord, "let", 2⟩ ⟨⟨.ident, "y", 2⟩, "y"⟩ .missing])
        none)]⟩

theorem read_unfinishedProgram :
    (∀ token ∈ unfinishedTokens, token.kind ≠ .eof) ∧
      (start unfinishedTokens 2).program.1 = unfinishedProgram ∧
      (start unfinishedTokens 2).program.2.faults = [] := by
  have hfree : ∀ token ∈ unfinishedTokens, token.kind ≠ .eof := by decide
  have hsum : Kind.plus ∈ Layer.sum.operators := by decide
  refine ⟨hfree, ?_⟩
  apply (clean_program_iff_derives unfinishedTokens 2 unfinishedProgram hfree).mpr
  apply @Derives.cons _ _ _ (unfinishedTokens.drop 4)
  · apply Derives.openExpression
    · apply Derives.loosen (show Layer.equality ≤ .sum by decide)
      apply @Derives.binary _ _ _ _ _ (unfinishedTokens.drop 3) _ _ hsum
      · exact .single (.integer rfl (by decide))
      · apply Derives.loosen (Layer.le_unary _)
        exact .unary (.inr rfl) (.name rfl)
    · exact front_cons_iff.mpr (by decide)
  · refine .cons (.openExpression ?_ front_nil) .nil
    apply Derives.loosen (Layer.le_unary _)
    apply @Derives.conditional _ _ ⟨.rparen, ")", 2⟩ _ _ _ (unfinishedTokens.drop 8) _ rfl rfl _ rfl
    · apply Derives.endingBlock rfl
      exact .cons (.binding rfl rfl rfl (.ending (List.forall_mem_nil _))) .nil
    · apply Derives.loosen (Layer.le_unary _)
      exact .name rfl

end Scriptlet.Parser
