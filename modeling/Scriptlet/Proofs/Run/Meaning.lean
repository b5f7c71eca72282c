import Mathlib.Algebra.Group.Int.Defs
import Scriptlet.Proofs.Grammar.Exactness
import Scriptlet.Proofs.Numeral.Range
import Scriptlet.Proofs.Parser.Composition
import Scriptlet.Proofs.Parser.Relabelling
import Scriptlet.Proofs.Source.Layout

/-!
# What a source runs to

A source has a value if and only if its tokens end with a literal in parentheses, or in
none, perhaps with a semicolon behind, and what stands in front of them is a clean program
that is complete without them.  Nothing before that cut looked further than the first token
behind it, and in the other direction a literal and an opening parenthesis continue no
statement.
-/

namespace Scriptlet

/-- The token is a literal of this value. -/
def Token.Denotes (token : Token) : Value → Prop
  | .integer value => token.kind = .int ∧ Numeral.value? token.literal = some value
  | .boolean true => token.kind = .trueWord
  | .boolean false => token.kind = .falseWord
  | .null => False

/-- A literal of the value stands in front of `rest`, in as many opening as closing
parentheses. -/
def Parenthesised (value : Value) (input rest : List Token) : Prop :=
  ∃ count opens literal closes, input = opens ++ literal :: (closes ++ rest) ∧
    opens.map Token.kind = List.replicate count .lparen ∧
    closes.map Token.kind = List.replicate count .rparen ∧ literal.Denotes value

def OptionalSemicolon (mark : List Token) : Prop :=
  mark.map Token.kind ∈ [[], [.semicolon]]

theorem Token.Denotes.parenthesised {literal : Token} {value : Value}
    (hliteral : literal.Denotes value) (rest : List Token) :
    Parenthesised value (literal :: rest) rest :=
  ⟨0, [], literal, [], rfl, rfl, rfl, hliteral⟩

theorem Parenthesised.group {value : Value} {input rest : List Token} {opening closing : Token}
    (hopening : opening.kind = .lparen) (hinner : Parenthesised value input (closing :: rest))
    (hclosing : closing.kind = .rparen) : Parenthesised value (opening :: input) rest := by
  obtain ⟨count, opens, literal, closes, rfl, hopens, hcloses, hliteral⟩ := hinner
  refine ⟨count + 1, opening :: opens, literal, closes ++ [closing], by simp, ?_, ?_, hliteral⟩
  · rw [List.map_cons, hopening, hopens, List.replicate_succ]
  · rw [List.map_append, hcloses, List.replicate_succ', List.map_singleton, hclosing]

/-- What a derivation of the phrase shows of the literal in it. -/
def Phrase.ShowsLiteral : Phrase → List Token → List Token → Prop
  | .expression _ value, input, rest =>
    ∀ result, value.eval = some result → Parenthesised result input rest
  | _, _, _ => True

theorem Derives.showsLiteral {phrase : Phrase} {input rest : List Token}
    (hderives : Derives phrase input rest) : phrase.ShowsLiteral input rest := by
  induction hderives with
  | integer hkind hvalue =>
      intro result heval
      cases heval
      apply Token.Denotes.parenthesised
      exact ⟨hkind, hvalue⟩
  | truth hkind | falsehood hkind =>
      intro result heval
      cases heval
      apply Token.Denotes.parenthesised
      exact hkind
  | group hopening _ hclosing ih =>
      intro result heval
      exact (ih result heval).group hopening hclosing
  | single _ ih => exact ih
  | name | unary | conditional | alternative | binary =>
      intro result heval
      contradiction
  | closedBlock | endingBlock | binding | result | closedExpression | openExpression | nil
  | cons => trivial

theorem Token.Denotes.derives {literal : Token} {value : Value} (hliteral : literal.Denotes value)
    (rest : List Token) :
    ∃ part, part.eval = some value ∧ Derives (.expression .equality part) (literal :: rest) rest := by
  cases value with
  | integer value =>
      exact ⟨_, rfl, (Derives.integer hliteral.1 hliteral.2).loosen (Layer.le_unary _)⟩
  | boolean value =>
      cases value with
      | true => exact ⟨_, rfl, (Derives.truth hliteral).loosen (Layer.le_unary _)⟩
      | false => exact ⟨_, rfl, (Derives.falsehood hliteral).loosen (Layer.le_unary _)⟩
  | null => contradiction

theorem Parenthesised.derives {value : Value} {input rest : List Token}
    (hinput : Parenthesised value input rest) :
    ∃ part, part.eval = some value ∧ Derives (.expression .equality part) input rest := by
  obtain ⟨count, opens, literal, closes, rfl, hopens, hcloses, hliteral⟩ := hinput
  -- The first opening parenthesis belongs to the last closing one.
  induction count generalizing opens closes rest with
  | zero =>
      rw [List.map_eq_nil_iff.mp hopens, List.map_eq_nil_iff.mp hcloses]
      exact hliteral.derives rest
  | succ count ih =>
      rw [List.replicate_succ] at hopens
      rw [List.replicate_succ'] at hcloses
      obtain ⟨opening, others, rfl, hopening, hothers⟩ := List.map_eq_cons_iff.mp hopens
      obtain ⟨inner, last, rfl, hinner, hlast⟩ := List.map_eq_append_iff.mp hcloses
      obtain ⟨closing, rfl, hclosing⟩ := List.map_eq_singleton_iff.mp hlast
      obtain ⟨part, heval, hpart⟩ := ih others inner hothers hinner
      refine ⟨part, heval, Derives.loosen (Layer.le_unary _) ?_⟩
      simpa using Derives.group hopening hpart hclosing

theorem Parenthesised.exists_first {value : Value} {input rest : List Token}
    (hinput : Parenthesised value input rest) :
    ∃ first tail, input = first :: tail ∧ first.kind ∈ [.lparen, .int, .trueWord, .falseWord] := by
  obtain ⟨count, opens, literal, closes, rfl, hopens, _, hliteral⟩ := hinput
  cases opens with
  | nil =>
      refine ⟨literal, closes ++ rest, rfl, ?_⟩
      match value, hliteral with
      | .integer _, hliteral => simp [hliteral.1]
      | .boolean true, hliteral | .boolean false, hliteral =>
          rw [Token.Denotes] at hliteral
          simp [hliteral]
  | cons opening others =>
      refine ⟨opening, others ++ literal :: (closes ++ rest), rfl, ?_⟩
      have hkind : opening.kind ∈ List.replicate count Kind.lparen := by
        rw [← hopens]
        exact List.mem_map_of_mem List.mem_cons_self
      simp [List.eq_of_mem_replicate hkind]

theorem Parenthesised.settled {value : Value} {input rest : List Token}
    (hinput : Parenthesised value input rest) : Settled input := by
  obtain ⟨first, tail, rfl, hkind⟩ := hinput.exists_first
  have hinert : ∀ kind ∈ [Kind.lparen, .int, .trueWord, .falseWord], kind.Inert := by decide
  exact front_cons_iff.mpr (hinert first.kind hkind)

theorem Derives.parenthesised {last : Stmt} {value : Value} {input : List Token}
    (hderives : Derives (.statements [last]) input []) (heval : last.eval = some value) :
    ∃ mark, OptionalSemicolon mark ∧ Parenthesised value input mark := by
  cases hderives with
  | cons hfirst hothers =>
      cases hothers
      cases hfirst with
      | binding | result => contradiction
      | closedExpression hvalue hmark =>
          refine ⟨_, ?_, hvalue.showsLiteral value heval⟩
          simp [OptionalSemicolon, hmark]
      | openExpression hvalue _ =>
          refine ⟨_, ?_, hvalue.showsLiteral value heval⟩
          simp [OptionalSemicolon]

theorem Parenthesised.derives_statement {value : Value} {input mark : List Token}
    (hinput : Parenthesised value input mark) (hmark : OptionalSemicolon mark) :
    ∃ last, last.eval = some value ∧ Derives (.statements [last]) input [] := by
  obtain ⟨first, tail, rfl, _⟩ := hinput.exists_first
  obtain ⟨part, heval, hpart⟩ := hinput.derives
  refine ⟨.expression first part, heval, Derives.cons ?_ .nil⟩
  obtain rfl | hsemicolon : mark = [] ∨ mark.map Token.kind = [.semicolon] := by
    simpa [OptionalSemicolon] using hmark
  · exact .openExpression hpart front_nil
  · obtain ⟨semicolon, rfl, hkind⟩ := List.map_eq_singleton_iff.mp hsemicolon
    exact .closedExpression hpart hkind

theorem Program.eval_eq_some_iff {program : Program} {value : Value} :
    program.eval = some value ↔
      ∃ earlier last, program.statements = earlier ++ [last] ∧ last.eval = some value := by
  unfold Program.eval
  rw [Option.bind_eq_some_iff]
  constructor
  · intro hlast
    obtain ⟨last, hlast, heval⟩ := hlast
    obtain ⟨earlier, hstatements⟩ := List.getLast?_eq_some_iff.mp hlast
    exact ⟨earlier, last, hstatements, heval⟩
  · intro hlast
    obtain ⟨earlier, last, hstatements, heval⟩ := hlast
    exact ⟨last, List.getLast?_eq_some_iff.mpr ⟨earlier, hstatements⟩, heval⟩

/-! ## Clean programs with a value -/

namespace Parser

variable {endLine : Nat}

theorem exists_parenthesised_of_eval {tokens : List Token} {value : Value}
    (hfree : EndFree tokens) (hclean : (start tokens endLine).program.2.faults = [])
    (heval : (start tokens endLine).program.1.eval = some value) :
    ∃ before last mark, tokens = before ++ last ∧
      ((start before endLine).program.2.faults = [] ∧
        (start before endLine).program.2.pulled = before.length + 2) ∧
      OptionalSemicolon mark ∧ Parenthesised value last mark := by
  obtain ⟨earlier, final, hstatements, hfinal⟩ := Program.eval_eq_some_iff.mp heval
  obtain ⟨rest, hread⟩ := clean_program_iff_reads.mp ⟨rfl, hclean⟩
  rw [hstatements] at hread
  obtain ⟨before, last, rfl, hbefore, hlast⟩ :=
    exists_cut_of_reads_sequence hread (List.cons_ne_nil final [])
  have hlastFree := hfree.of_suffix (List.suffix_append before last)
  obtain ⟨hderives, hends⟩ := sequenceSound endLine .program last hlastFree _ rest hlast
  rw [rest_eq_nil_of_ends hlastFree hlast.suffix hends] at hderives
  obtain ⟨mark, hmark, hparenthesised⟩ := hderives.parenthesised hfinal
  exact ⟨before, last, mark, rfl, clean_and_pulled_of_reads hbefore, hmark, hparenthesised⟩

theorem eval_of_parenthesised {before last mark : List Token} {value : Value}
    (hfree : EndFree last) (hclean : (start before endLine).program.2.faults = [])
    (hpulled : (start before endLine).program.2.pulled = before.length + 2)
    (hmark : OptionalSemicolon mark) (hlast : Parenthesised value last mark) :
    (start (before ++ last) endLine).program.2.faults = [] ∧
      (start (before ++ last) endLine).program.1.eval = some value := by
  obtain ⟨final, hfinal, hderives⟩ := hlast.derives_statement hmark
  have hback : SequenceReadBack endLine [final] last [] := readBack_of_derives hfree hderives
  have hread := (hback .program front_nil).2
  obtain ⟨hstatements, hfaults⟩ := sequence_append (reads_of_clean_of_pulled hclean hpulled)
    (.inr (.inr hlast.settled))
  rw [hread.value_eq] at hstatements
  rw [hread.faults_eq] at hfaults
  exact ⟨hfaults, Program.eval_eq_some_iff.mpr ⟨_, final, hstatements, hfinal⟩⟩

end Parser

theorem run_eq_ok_iff {source : String} {result : Option Value} :
    run source = .ok result ↔
      (Parser.ofSource (.ofString source)).program.2.faults = [] ∧
        (Parser.ofSource (.ofString source)).program.1.eval = result := by
  simp only [run]
  split <;> simp_all

theorem Source.endFree_tokens (source : Source) : EndFree source.tokens := by
  intro token hmem
  obtain ⟨behind, hmunch⟩ := munch_of_mem_tokens hmem
  exact hmunch.kind_ne_eof

theorem Source.nonneg_of_value? {source : Source} {token : Token} {value : Int}
    (hmem : token ∈ source.tokens) (hkind : token.kind = .int)
    (hvalue : Numeral.value? token.literal = some value) : 0 ≤ value := by
  obtain ⟨behind, hmunch⟩ := munch_of_mem_tokens hmem
  rw [hkind] at hmunch
  refine Numeral.nonneg_of_value? ?_ hvalue
  intro hminus
  exact absurd (hmunch.digitChar_of_int '-' hminus) (by decide)

theorem run_eq_ok_some_iff {source : String} {value : Value} (endLine : Nat) :
    run source = .ok (some value) ↔
      ∃ before last mark, (Source.ofString source).tokens = before ++ last ∧
        ((Parser.start before endLine).program.2.faults = [] ∧
          (Parser.start before endLine).program.2.pulled = before.length + 2) ∧
        OptionalSemicolon mark ∧ Parenthesised value last mark := by
  have hfree := (Source.ofString source).endFree_tokens
  rw [run_eq_ok_iff]
  constructor
  · intro hrun
    obtain ⟨hclean, heval⟩ := hrun
    obtain ⟨before, last, mark, htokens, hbefore, hlast⟩ :=
      Parser.exists_parenthesised_of_eval hfree hclean heval
    -- The tokens before were read up to the end line of the source.
    obtain ⟨hfaults, hpulled⟩ := Parser.faults_and_pulled_of_line before _ endLine
    rw [hfaults, hpulled] at hbefore
    exact ⟨before, last, mark, htokens, hbefore, hlast⟩
  · intro hform
    obtain ⟨before, last, mark, htokens, hbefore, hmark, hlast⟩ := hform
    obtain ⟨hfaults, hpulled⟩ :=
      Parser.faults_and_pulled_of_line before endLine (Source.ofString source).endLine
    rw [hfaults, hpulled] at hbefore
    rw [htokens] at hfree
    unfold Parser.ofSource
    rw [htokens]
    exact Parser.eval_of_parenthesised (hfree.of_suffix (List.suffix_append before last))
      hbefore.1 hbefore.2 hmark hlast

theorem nonneg_and_le_of_parenthesised {source : Source} {before last mark : List Token}
    {value : Int} (htokens : source.tokens = before ++ last)
    (hlast : Parenthesised (.integer value) last mark) : 0 ≤ value ∧ value ≤ Numeral.greatest := by
  obtain ⟨count, opens, literal, closes, rfl, _, _, hkind, hvalue⟩ := hlast
  have hmem : literal ∈ source.tokens := by
    rw [htokens]
    simp
  exact ⟨Source.nonneg_of_value? hmem hkind hvalue, (Numeral.value?_eq_some hvalue).2.2⟩

/-- A source has a value if and only if a literal of the value, in any number of parentheses and
with or without a semicolon behind, stands at its end, and what stands before is a clean
program that is complete without it.  No source has the null value, and no integer leaves the
range of the literals. -/
theorem run_yields_last_literal (source : String) (endLine : Nat) :
    (∀ value, run source = .ok (some value) ↔
      ∃ before last mark, (Source.ofString source).tokens = before ++ last ∧
        ((Parser.start before endLine).program.2.faults = [] ∧
          (Parser.start before endLine).program.2.pulled = before.length + 2) ∧
        OptionalSemicolon mark ∧ Parenthesised value last mark) ∧
    run source ≠ .ok (some .null) ∧
    ∀ value, run source = .ok (some (.integer value)) → 0 ≤ value ∧ value ≤ 2 ^ 63 - 1 := by
  refine ⟨fun value => run_eq_ok_some_iff endLine, ?_, ?_⟩
  · intro hrun
    obtain ⟨before, last, mark, _, _, _, hlast⟩ := (run_eq_ok_some_iff endLine).mp hrun
    obtain ⟨count, opens, literal, closes, _, _, _, hliteral⟩ := hlast
    exact hliteral
  · intro value hrun
    obtain ⟨before, last, mark, htokens, _, _, hlast⟩ := (run_eq_ok_some_iff endLine).mp hrun
    exact nonneg_and_le_of_parenthesised htokens hlast

/-- Behind a negated name the group is a statement of its own, and its literal is octal. -/
theorem run_group_behind_negation :
    run "-a\n((042));" = .ok (some (.integer 34)) ∧ (0 : Int) ≤ 34 ∧ (34 : Int) ≤ 2 ^ 63 - 1 := by
  obtain ⟨hiff, _, hrange⟩ := run_yields_last_literal "-a\n((042));" 2
  have hrun : run "-a\n((042));" = .ok (some (.integer 34)) := by
    apply (hiff (.integer 34)).mpr
    refine ⟨[⟨.minus, "-", 1⟩, ⟨.ident, "a", 1⟩],
      [⟨.lparen, "(", 2⟩, ⟨.lparen, "(", 2⟩, ⟨.int, "042", 2⟩, ⟨.rparen, ")", 2⟩,
        ⟨.rparen, ")", 2⟩, ⟨.semicolon, ";", 2⟩], [⟨.semicolon, ";", 2⟩], by decide +kernel,
      ⟨by decide +kernel, by decide +kernel⟩, by simp [OptionalSemicolon], ?_⟩
    exact ⟨2, [⟨.lparen, "(", 2⟩, ⟨.lparen, "(", 2⟩], ⟨.int, "042", 2⟩,
      [⟨.rparen, ")", 2⟩, ⟨.rparen, ")", 2⟩], rfl, rfl, rfl, rfl, by decide +kernel⟩
  exact ⟨hrun, hrange 34 hrun⟩

end Scriptlet
