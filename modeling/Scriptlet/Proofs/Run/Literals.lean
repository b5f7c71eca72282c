import Scriptlet.Proofs.Numeral.Exactness
import Scriptlet.Proofs.Parser.ViablePrefix
import Scriptlet.Proofs.Run.Meaning
import Scriptlet.Proofs.Source.Spelling

/-!
# Literals as sources

The lexer knows decimal digits only.  A literal with an announcement by a letter, or with
underscores, is cut into names and integers, each of which is a statement of its own, and
only the last of them counts.

Names and integers continue nothing, so a list of them is read one by one, and the only
faults are integers that have no value.
-/

namespace Scriptlet

/-- A name or an integer. -/
def Token.IsOperand (token : Token) : Prop :=
  token.kind = .ident ∨ token.kind = .int

/-- The expression that a name or an integer stands for, unless the integer has no value. -/
def Token.operand? (token : Token) : Option Expr :=
  match token.kind with
  | .ident => some (.name ⟨token, token.literal⟩)
  | .int => (Numeral.value? token.literal).map (.integer token)
  | _ => none

def Token.alone (token : Token) : Stmt :=
  .expression token (token.operand?.getD .missing)

namespace Token.IsOperand

variable {token : Token}

theorem isSome_operand?_iff (htoken : token.IsOperand) :
    token.operand?.isSome = true ↔
      (token.kind = .int → ∃ value, token.Denotes (.integer value)) := by
  rcases htoken with hkind | hkind
  · simp [Token.operand?, hkind]
  · simp [Token.operand?, Token.Denotes, hkind, Option.isSome_iff_exists]

theorem eval_alone_iff (htoken : token.IsOperand) {value : Int} :
    token.alone.eval = some (.integer value) ↔ token.Denotes (.integer value) := by
  rcases htoken with hkind | hkind
  · simp [Token.alone, Token.operand?, Token.Denotes, hkind, Stmt.eval, Expr.eval]
  · cases hvalue : Numeral.value? token.literal with
    | none => simp [Token.alone, Token.operand?, Token.Denotes, hkind, hvalue, Stmt.eval, Expr.eval]
    | some number =>
        simp [Token.alone, Token.operand?, Token.Denotes, hkind, hvalue, Stmt.eval, Expr.eval]

theorem inert (htoken : token.IsOperand) : token.kind.Inert := by
  rcases htoken with hkind | hkind <;> rw [hkind] <;> decide

end Token.IsOperand

theorem settled_of_operands {tokens : List Token} (htokens : ∀ token ∈ tokens, token.IsOperand) :
    Settled tokens := by
  cases tokens with
  | nil => exact front_nil
  | cons token tokens => exact front_cons_iff.mpr (htokens token List.mem_cons_self).inert

namespace Parser

open Step Reader

variable {endLine : Nat} {token : Token} {tokens rest : List Token}

theorem reads_statement_operand {value : Expr} (hvalue : token.operand? = some value)
    (hrest : Settled rest) :
    (statement endLine token rest).Reads False (some (.expression token value)) rest := by
  obtain ⟨opening, hkind, hoperand⟩ : ∃ opening : Opening, token.kind ∈ opening.kinds ∧
      (operand endLine opening token rest).Reads False value rest := by
    unfold Token.operand? at hvalue
    split at hvalue
    · rename_i hkind
      refine ⟨.name, by simp [Opening.kinds, hkind], ?_⟩
      rw [operand]
      exact reads_pure_iff.mpr ⟨(Option.some.inj hvalue).symm, rfl⟩
    · rename_i hkind
      obtain ⟨number, hnumber, rfl⟩ := Option.map_eq_some_iff.mp hvalue
      refine ⟨.integer, by simp [Opening.kinds, hkind], ?_⟩
      rw [operand, integer, hnumber]
      exact reads_pure_iff.mpr ⟨rfl, rfl⟩
    · contradiction
  have hchain : (chain endLine .lowest value rest).Reads False value rest :=
    reads_chain_of_stops (stops_of_settled hrest)
  have hmark : (accept .semicolon rest).Reads True none rest := reads_accept_none (by decide) hrest
  exact reads_statement_expression hkind (reads_expression_of_operand opening hkind hoperand hchain)
    hmark.loosen

theorem fails_statement_integer (hkind : token.kind = .int)
    (hvalue : Numeral.value? token.literal = none) :
    (statement endLine token rest).Fails (.badInteger token.literal token.line) := by
  have hopening : token.kind.opening? = some .integer := by rw [hkind]; rfl
  rw [statement_eq_expression (by simp [hkind]) (by simp [hkind]), fails_bind_iff, expressionFrom,
    hopening]
  left
  rw [fails_bind_iff, operand, integer, hvalue]
  exact .inl (fails_fail_iff.mpr rfl)

theorem reads_statement_operand_iff {first : Option Stmt} (htoken : token.IsOperand)
    (htokens : Settled tokens) :
    (statement endLine token tokens).Reads False first rest ↔
      token.operand?.isSome = true ∧ first = some token.alone ∧ rest = tokens := by
  cases hvalue : token.operand? with
  | some value =>
      have halone : token.alone = .expression token value := by rw [Token.alone, hvalue]; rfl
      have hread : (statement endLine token tokens).Reads False (some token.alone) tokens := by
        rw [halone]
        exact reads_statement_operand hvalue htokens
      constructor
      · intro hother
        exact ⟨rfl, hother.value_eq.symm.trans hread.value_eq,
          hother.rest_eq.symm.trans hread.rest_eq⟩
      · rintro ⟨_, rfl, rfl⟩
        exact hread
  | none =>
      refine ⟨fun hread => ?_, fun hsome => absurd hsome.1 (by simp)⟩
      obtain ⟨hkind, hnone⟩ : token.kind = .int ∧ Numeral.value? token.literal = none := by
        rcases htoken with hkind | hkind <;> simp_all [Token.operand?]
      have hfails : (statement endLine token tokens).Fails _ := fails_statement_integer hkind hnone
      rw [Fails, hread.faults_eq] at hfails
      contradiction

theorem reads_operands_iff {statements : List Stmt}
    (htokens : ∀ token ∈ tokens, token.IsOperand) :
    (sequence endLine .program tokens).Reads False statements rest ↔
      (∀ token ∈ tokens, token.operand?.isSome = true) ∧ statements = tokens.map Token.alone ∧
        rest = [] := by
  -- What stands behind an operand is settled, so the statement ends with its only token.
  induction tokens generalizing statements with
  | nil =>
      rw [sequence, reads_pure_iff]
      simp
  | cons token tokens ih =>
      have htoken := htokens token List.mem_cons_self
      have hothers : ∀ other ∈ tokens, other.IsOperand :=
        fun other hmem => htokens other (List.mem_cons_of_mem token hmem)
      have hgoes : ¬ Scope.program.endsAt token.kind = true := by
        rcases htoken with hkind | hkind <;> rw [hkind] <;> decide
      rw [sequence, if_neg hgoes, reads_behind_iff, reads_bind_iff]
      simp only [reads_map_iff, reads_statement_operand_iff htoken (settled_of_operands hothers)]
      constructor
      · rintro ⟨first, middle, _, ⟨hsome, rfl, rfl⟩, others, hread, rfl⟩
        obtain ⟨hall, rfl, rfl⟩ := (ih hothers).mp hread
        exact ⟨List.forall_mem_cons.mpr ⟨hsome, hall⟩, rfl, rfl⟩
      · rintro ⟨hall, rfl, rfl⟩
        obtain ⟨hsome, hall⟩ := List.forall_mem_cons.mp hall
        exact ⟨some token.alone, tokens, Nat.le_refl _, ⟨hsome, rfl, rfl⟩, _,
          (ih hothers).mpr ⟨hall, rfl, rfl⟩, rfl⟩

end Parser

theorem run_operands_iff {source : String} {value : Int}
    (htokens : ∀ token ∈ (Source.ofString source).tokens, token.IsOperand) :
    run source = .ok (some (.integer value)) ↔
      (∀ token ∈ (Source.ofString source).tokens, token.kind = .int →
        ∃ number, token.Denotes (.integer number)) ∧
      ∃ last ∈ (Source.ofString source).tokens.getLast?, last.Denotes (.integer value) := by
  rw [run_eq_ok_iff, Parser.ofSource]
  generalize (Source.ofString source).endLine = endLine
  generalize (Source.ofString source).tokens = tokens at htokens ⊢
  have hall : (∀ token ∈ tokens, token.operand?.isSome = true) ↔
      ∀ token ∈ tokens, token.kind = .int → ∃ number, token.Denotes (.integer number) :=
    forall₂_congr fun token hmem => (htokens token hmem).isSome_operand?_iff
  have hlast : (⟨tokens.map Token.alone⟩ : Program).eval = some (.integer value) ↔
      ∃ last ∈ tokens.getLast?, last.Denotes (.integer value) := by
    rw [Program.eval, List.getLast?_map, Option.bind_map, Option.bind_eq_some_iff]
    refine exists_congr fun last => and_congr_right fun hmem => ?_
    exact (htokens last (List.mem_of_getLast? hmem)).eval_alone_iff
  rw [← hall, ← hlast]
  constructor
  · rintro ⟨hclean, heval⟩
    obtain ⟨rest, hread⟩ := Parser.clean_program_iff_reads.mp ⟨rfl, hclean⟩
    obtain ⟨hsome, hstatements, _⟩ := (Parser.reads_operands_iff htokens).mp hread
    refine ⟨hsome, ?_⟩
    rwa [← hstatements]
  · rintro ⟨hsome, heval⟩
    have hread : (Parser.sequence endLine .program tokens).Reads False
        (tokens.map Token.alone) [] :=
      (Parser.reads_operands_iff htokens).mpr ⟨hsome, rfl, rfl⟩
    obtain ⟨hprogram, hclean⟩ := Parser.clean_program_iff_reads.mpr ⟨[], hread⟩
    refine ⟨hclean, ?_⟩
    rwa [hprogram]

/-! ## Literals as tokens -/

theorem Source.mem_rest_of_mem_tokens {source : Source} {token : Token} {c : Char}
    (htoken : token ∈ source.tokens) (hc : c ∈ token.literal.toList) : c ∈ source.rest := by
  obtain ⟨pieces, last, htokens, hlayout⟩ := source.exists_layout
  rw [← htokens] at htoken
  obtain ⟨piece, hpiece, rfl⟩ := List.mem_map.mp htoken
  rw [hlayout.text_eq]
  apply List.mem_append_left
  exact List.mem_flatMap.mpr ⟨piece, hpiece, List.mem_append_right _ hc⟩

theorem Munch.operand_of_alphabet {kind : Kind} {text behind : List Char}
    (hmunch : Munch kind text behind)
    (htext : ∀ c ∈ text, c ∈ Numeral.alphabet) : kind = .ident ∨ kind = .int := by
  have hletters : Numeral.alphabet.all (fun c => isLetter c || c.isDigit) = true := by decide
  have hclass : ∀ c ∈ Numeral.alphabet, WordChar c ∨ DigitChar c := by
    simpa [isLetter_iff, isDigit_iff] using hletters
  -- Each keyword has a letter that no literal has.
  have hkeywords : ∀ entry ∈ keywords, ¬ entry.1 ⊆ Numeral.alphabet := by decide
  cases hmunch with
  | name => exact .inl rfl
  | number => exact .inr rfl
  | keyword hkeyword _ => exact absurd htext (hkeywords _ hkeyword)
  | comparison => exact absurd (htext '=' (by simp)) (by decide)
  | symbol hsymbol _ =>
      have hchar := symbols_char hsymbol
      exact ((hclass _ (htext _ List.mem_cons_self)).elim hchar.1 hchar.2.1).elim
  | illegal hword hdigit _ _ =>
      exact ((hclass _ (htext _ List.mem_cons_self)).elim hword hdigit).elim

theorem Numeral.Literal.operand_tokens {text : String} {radix : Nat} {digits : List Nat}
    (hliteral : Literal text.toList radix digits) :
    ∀ token ∈ (Source.ofString text).tokens, token.IsOperand := by
  intro token htoken
  obtain ⟨behind, hmunch⟩ := Source.munch_of_mem_tokens htoken
  apply hmunch.operand_of_alphabet
  intro c hc
  exact hliteral.mem_alphabet c (Source.mem_rest_of_mem_tokens htoken hc)

theorem Source.tokens_eq_integer_iff {text : String} (hne : text.toList ≠ []) :
    (ofString text).tokens = [⟨.int, text, 1⟩] ↔ ∀ c ∈ text.toList, DigitChar c := by
  constructor
  · intro htokens
    have hmem : (⟨.int, text, 1⟩ : Token) ∈ (ofString text).tokens := by simp [htokens]
    obtain ⟨behind, hmunch⟩ := munch_of_mem_tokens hmem
    exact hmunch.digitChar_of_int
  · intro hdigits
    have hmunch : Munch .int text.toList [] := .number hne hdigits (by simp)
    have hnext := next?_of_munch (List.forall_mem_nil GapChar) hmunch 1
    rw [List.nil_append, List.append_nil] at hnext
    have hrest : (⟨[], 1⟩ : Source).tokens = [] := tokens_of_next?_none rfl
    rw [ofString, tokens_of_next?_some hnext]
    exact congrArg (List.cons _) hrest

/-- A text without a sign that is read as a literal is cut into names and integers.  It is one
integer exactly if it has decimal digits only, and then runs to its value; otherwise it
runs to an integer only if every integer in it has a value, and only to that of the last
token. -/
theorem run_literal_iff (text : String) (value : Int) (hvalue : Numeral.value? text = some value)
    (hplus : '+' ∉ text.toList) (hminus : '-' ∉ text.toList) :
    let tokens := (Source.ofString text).tokens
    (∀ token ∈ tokens, token.IsOperand) ∧
    (tokens = [⟨.int, text, 1⟩] ↔ ∀ c ∈ text.toList, DigitChar c) ∧
    ((∀ c ∈ text.toList, DigitChar c) → run text = .ok (some (.integer value))) ∧
    ∀ result, run text = .ok (some (.integer result)) ↔
      (∀ token ∈ tokens, token.kind = .int → ∃ number, token.Denotes (.integer number)) ∧
      ∃ last ∈ tokens.getLast?, last.Denotes (.integer result) := by
  intro tokens
  obtain ⟨radix, digits, hliteral, _⟩ :=
    (Numeral.value?_eq_some_iff_literal hplus hminus).mp hvalue
  have hoperands : ∀ token ∈ tokens, token.IsOperand := hliteral.operand_tokens
  have hne : text.toList ≠ [] := by
    intro hnil
    rw [String.toList_eq_nil_iff.mp hnil] at hvalue
    contradiction
  have hsingle := Source.tokens_eq_integer_iff hne
  refine ⟨hoperands, hsingle, ?_, fun result => run_operands_iff hoperands⟩
  intro hdigits
  have hdenotes : Token.Denotes ⟨.int, text, 1⟩ (.integer value) := ⟨rfl, hvalue⟩
  rw [run_operands_iff hoperands, hsingle.mpr hdigits]
  refine ⟨?_, _, rfl, hdenotes⟩
  intro token hmem _
  rw [List.mem_singleton.mp hmem]
  exact ⟨value, hdenotes⟩

/-- Three statements, the last of which happens to be of the value of the whole. -/
theorem run_announced_literal :
    (Numeral.value? "0x_7" = some 7 ∧ '+' ∉ "0x_7".toList ∧ '-' ∉ "0x_7".toList) ∧
      (Source.ofString "0x_7").tokens ≠ [⟨.int, "0x_7", 1⟩] ∧
      run "0x_7" = .ok (some (.integer 7)) := by
  have hvalue : Numeral.value? "0x_7" = some 7 := by decide
  have hplus : '+' ∉ "0x_7".toList := by decide
  have hminus : '-' ∉ "0x_7".toList := by decide
  have htokens : (Source.ofString "0x_7").tokens =
      [⟨.int, "0", 1⟩, ⟨.ident, "x_", 1⟩, ⟨.int, "7", 1⟩] := by decide +kernel
  obtain ⟨_, hsingle, _, hrun⟩ := run_literal_iff "0x_7" 7 hvalue hplus hminus
  refine ⟨⟨hvalue, hplus, hminus⟩, ?_, ?_⟩
  · rw [Ne, hsingle]
    intro hdigits
    exact absurd (hdigits 'x' (by decide)) (by decide)
  · have hzero : Token.Denotes ⟨.int, "0", 1⟩ (.integer 0) := ⟨rfl, by decide⟩
    have hseven : Token.Denotes ⟨.int, "7", 1⟩ (.integer 7) := ⟨rfl, by decide⟩
    rw [hrun, htokens]
    refine ⟨?_, _, rfl, hseven⟩
    intro token hmem hkind
    simp only [List.mem_cons, List.not_mem_nil, or_false] at hmem
    rcases hmem with rfl | rfl | rfl
    · exact ⟨0, hzero⟩
    · exact absurd hkind (by decide)
    · exact ⟨7, hseven⟩

/-- Behind an underscore the zeros are a statement of their own. -/
theorem run_separated_literal :
    (Numeral.value? "1_000" = some 1000 ∧ '+' ∉ "1_000".toList ∧ '-' ∉ "1_000".toList) ∧
      run "1_000" = .ok (some (.integer 0)) ∧ run "1_000" ≠ .ok (some (.integer 1000)) := by
  have hrun : run "1_000" = .ok (some (.integer 0)) := by decide +kernel
  refine ⟨by decide, hrun, ?_⟩
  rw [hrun]
  decide

end Scriptlet
