import Scriptlet.Proofs.Grammar.Completeness
import Scriptlet.Proofs.Source.Layout

/-!
# Faults come in the order of their lines

Some faults name the token that was just read and others the token that comes next.  What
a step has found is kept between the line of the token read before it and that of the
token it leaves next.  Put in the place of the tokens that the step has read, the lines of
its faults keep the lines of the whole list ascending.
-/

namespace Scriptlet

def Ascending (numbers : List Nat) : Prop :=
  numbers.Pairwise (· ≤ ·)

namespace Ascending

variable {before after other : List Nat} {number : Nat}

theorem sublist (hascending : Ascending other) (hsublist : after.Sublist other) :
    Ascending after :=
  List.Pairwise.sublist hsublist hascending

theorem exchange (hascending : Ascending (before ++ number :: after))
    (hother : Ascending (number :: other)) : Ascending (before ++ number :: other) := by
  unfold Ascending at *
  rw [List.pairwise_append] at hascending ⊢
  refine ⟨hascending.1, hother, ?_⟩
  intro first hfirst second hsecond
  have hnumber : first ≤ number := hascending.2.2 first hfirst number List.mem_cons_self
  cases hsecond with
  | head => exact hnumber
  | tail _ hmem => exact Nat.le_trans hnumber (List.rel_of_pairwise_cons hother hmem)

theorem double (hascending : Ascending (number :: after)) :
    Ascending (number :: number :: after) := by
  refine List.pairwise_cons.mpr ⟨?_, hascending⟩
  intro second hsecond
  cases hsecond with
  | head => exact Nat.le_refl number
  | tail _ hmem => exact List.rel_of_pairwise_cons hascending hmem

end Ascending

/-- The lines of the tokens, and behind them the line of the end marker. -/
def linesOf (endLine : Nat) (tokens : List Token) : List Nat :=
  tokens.map Token.line ++ [endLine]

@[simp] theorem linesOf_nil (endLine : Nat) : linesOf endLine [] = [endLine] :=
  rfl

@[simp] theorem linesOf_cons (endLine : Nat) (token : Token) (tokens : List Token) :
    linesOf endLine (token :: tokens) = token.line :: linesOf endLine tokens :=
  rfl

theorem linesOf_sublist {endLine : Nat} {rest input : List Token} (hsuffix : rest <:+ input) :
    (linesOf endLine rest).Sublist (linesOf endLine input) :=
  (hsuffix.sublist.map Token.line).append_right [endLine]

theorem ascending_linesOf {endLine : Nat} {tokens : List Token}
    (hlines : (tokens.map Token.line).Pairwise (· ≤ ·))
    (hend : ∀ token ∈ tokens, token.line ≤ endLine) :
    Ascending (0 :: linesOf endLine tokens) := by
  refine List.pairwise_cons.mpr ⟨fun _ _ => Nat.zero_le _, List.pairwise_append.mpr ⟨hlines, ?_, ?_⟩⟩
  · exact List.pairwise_singleton _ _
  · intro line hline last hlast
    obtain ⟨token, hmem, rfl⟩ := List.mem_map.mp hline
    rw [List.mem_singleton.mp hlast]
    exact hend token hmem

/-- The tokens of a source stand on ascending lines, none above the line the source starts
on and none below the line it ends on. -/
theorem Source.ascending_tokens (source : Source) :
    Ascending (source.line :: linesOf source.endLine source.tokens) := by
  induction hlength : source.rest.length using Nat.strongRecOn generalizing source with
  | ind length ih =>
      cases hnext : source.next? with
      | none =>
          rw [tokens_of_next?_none hnext]
          simp [Ascending, endLine]
      | some read =>
          obtain ⟨token, after⟩ := read
          have hshorter := length_rest_lt_of_next? hnext
          rw [hlength] at hshorter
          have hafter := ih _ hshorter after rfl
          obtain ⟨gap, behind, _, _, _, hline, rfl⟩ := next?_eq_some hnext
          rw [tokens_of_next?_some hnext, linesOf_cons, ← endLine_of_next? hnext]
          have hfirst : Ascending ([source.line] ++ token.line :: []) := by
            simp [Ascending, hline]
          exact hfirst.exchange hafter

/-! ## Steps that keep lines ascending -/

namespace Step

variable {α β : Type} {input : List Token} {endLine low : Nat}

/-- The lines of the faults fit in where the tokens read stood, behind a token on the line
`low`. -/
def InOrder (endLine low : Nat) (step : Step α input) : Prop :=
  Ascending (low :: linesOf endLine input) →
    Ascending (low :: (step.faults.map Fault.line ++ linesOf endLine step.rest))

theorem inOrder_of_clean {step : Step α input} (hclean : step.faults = []) :
    step.InOrder endLine low := by
  intro hlines
  rw [hclean]
  exact hlines.sublist ((linesOf_sublist step.rest_suffix).cons_cons low)

/-- The fault is on the line of the token read before. -/
theorem inOrder_fail_behind {value : α} {fault : Fault} (hline : fault.line = low) :
    (fail value fault : Step α input).InOrder endLine low := by
  intro hlines
  subst hline
  exact hlines.double

/-- The fault is on the line of the token to be read next. -/
theorem inOrder_of_fault_ahead {step : Step α input} {fault : Fault} {others : List Nat}
    (hfaults : step.faults = [fault]) (hrest : step.rest = input)
    (hline : linesOf endLine input = fault.line :: others) : step.InOrder endLine low := by
  intro hlines
  rw [hfaults, hrest, hline] at *
  have hlow : Ascending ([low] ++ fault.line :: others) := hlines
  exact hlow.exchange (hlines.sublist (List.sublist_cons_self _ _)).double

theorem InOrder.behind {token : Token} {step : Step α input}
    (hstep : step.InOrder endLine token.line) : (step.behind token).InOrder endLine low := by
  intro hlines
  have hlow : Ascending ([low] ++ token.line :: linesOf endLine input) := hlines
  have hread := hlow.exchange (hstep (hlines.sublist (List.sublist_cons_self _ _)))
  exact hread.sublist ((List.sublist_cons_self _ _).cons_cons low)

theorem InOrder.map {f : α → β} {step : Step α input} (hstep : step.InOrder endLine low) :
    (step.map f).InOrder endLine low :=
  hstep

theorem InOrder.bind {first : Step α input}
    {next : α → (rest : List Token) → rest.length ≤ input.length → Step β rest}
    (hfirst : first.InOrder endLine low)
    (hnext : ∀ value rest hle low, (next value rest hle).InOrder endLine low) :
    (first.bind next).InOrder endLine low := by
  intro hlines
  -- The second step starts behind the last line of the first, be it `low` or that of a fault.
  obtain ⟨before, last, hlast⟩ : ∃ before last,
      low :: first.faults.map Fault.line = before ++ [last] :=
    ⟨_, _, (List.dropLast_concat_getLast (List.cons_ne_nil _ _)).symm⟩
  have hread := hfirst hlines
  rw [← List.cons_append, hlast, List.append_assoc, List.singleton_append] at hread
  have hrest := hread.sublist (List.sublist_append_right _ _)
  have hboth := hread.exchange (hnext first.value first.rest first.rest_suffix.length_le last hrest)
  rw [← List.singleton_append, ← List.append_assoc, ← hlast] at hboth
  simpa [Step.bind] using hboth

theorem InOrder.andThen {first : Step (Option α) input} {otherwise : β}
    {next : α → (rest : List Token) → rest.length ≤ input.length → Step β rest}
    (hfirst : first.InOrder endLine low)
    (hnext : ∀ value rest hle low, (next value rest hle).InOrder endLine low) :
    (first.andThen otherwise next).InOrder endLine low := by
  apply hfirst.bind
  intro found rest hle low
  cases found with
  | none => exact inOrder_of_clean rfl
  | some value => exact hnext value rest hle low

theorem inOrder_expect (kind : Kind) (input : List Token) :
    (expect endLine kind input).InOrder endLine low := by
  cases input with
  | nil => exact inOrder_of_fault_ahead rfl rfl rfl
  | cons token rest =>
      by_cases hkind : token.kind = kind
      · rw [expect, if_pos hkind]
        exact inOrder_of_clean rfl
      · rw [expect, if_neg hkind]
        exact inOrder_of_fault_ahead rfl rfl rfl

end Step

namespace Parser

open Step

variable {endLine low : Nat}

theorem inOrder_expression_nil (floor : Precedence) :
    (expression endLine floor []).InOrder endLine low := by
  rw [expression]
  exact inOrder_of_fault_ahead rfl rfl rfl

theorem inOrder_expression_cons {floor : Precedence} {token : Token} {input : List Token}
    (hfrom : (expressionFrom endLine floor token input).InOrder endLine token.line) :
    (expression endLine floor (token :: input)).InOrder endLine low := by
  rw [expression]
  exact hfrom.behind

theorem inOrder_expressionFrom_none {floor : Precedence} {token : Token} {input : List Token}
    (hopening : token.kind.opening? = none) :
    (expressionFrom endLine floor token input).InOrder endLine token.line := by
  rw [expressionFrom, hopening]
  exact inOrder_fail_behind rfl

theorem inOrder_expressionFrom_some {floor : Precedence} {token : Token} {input : List Token}
    {opening : Opening} (hopening : token.kind.opening? = some opening)
    (hoperand : (operand endLine opening token input).InOrder endLine token.line)
    (hchain : ∀ left (rest : List Token), rest.length ≤ input.length →
      ∀ low, (chain endLine floor left rest).InOrder endLine low) :
    (expressionFrom endLine floor token input).InOrder endLine token.line := by
  rw [expressionFrom, hopening]
  exact hoperand.bind hchain

theorem inOrder_chain_stop {floor : Precedence} {left : Expr} {input : List Token}
    (hstops : Stops floor input) : (chain endLine floor left input).InOrder endLine low := by
  rw [chain_of_stops hstops]
  exact inOrder_of_clean rfl

theorem inOrder_chain_operator {floor : Precedence} {left : Expr} {token : Token}
    {input : List Token} (hfloor : floor < token.kind.precedence)
    (hright : ∀ low, (expression endLine token.kind.precedence input).InOrder endLine low)
    (hchain : ∀ right (rest : List Token), rest.length ≤ input.length →
      ∀ low, (chain endLine floor (.binary token left token.literal right) rest).InOrder
        endLine low) :
    (chain endLine floor left (token :: input)).InOrder endLine low := by
  rw [chain, if_pos hfloor]
  exact ((hright token.line).bind hchain).behind

theorem inOrder_operand_name (token : Token) (input : List Token) :
    (operand endLine .name token input).InOrder endLine token.line := by
  rw [operand]
  exact inOrder_of_clean rfl

theorem inOrder_operand_integer (token : Token) (input : List Token) :
    (operand endLine .integer token input).InOrder endLine token.line := by
  rw [operand, integer]
  split
  · exact inOrder_of_clean rfl
  · exact inOrder_fail_behind rfl

theorem inOrder_operand_boolean (token : Token) (input : List Token) :
    (operand endLine .boolean token input).InOrder endLine token.line := by
  rw [operand]
  exact inOrder_of_clean rfl

theorem inOrder_operand_unary {token : Token} {input : List Token}
    (hinner : ∀ low, (expression endLine .unary input).InOrder endLine low) :
    (operand endLine .unary token input).InOrder endLine token.line := by
  rw [operand_unary]
  exact (hinner token.line).map

theorem inOrder_operand_group {token : Token} {input : List Token}
    (hinner : ∀ low, (enclosed endLine input).InOrder endLine low) :
    (operand endLine .group token input).InOrder endLine token.line := by
  rw [operand_group]
  exact (hinner token.line).map

theorem inOrder_conditionalTail {token : Token} {condition : Expr} {consequence : Block}
    {word : Option Token} {input : List Token}
    (hbraced : ∀ low, (braced endLine input).InOrder endLine low) :
    (conditionalTail endLine token condition consequence word input).InOrder endLine low := by
  cases word with
  | none => exact inOrder_of_clean rfl
  | some word =>
      rw [conditionalTail]
      apply (hbraced low).andThen
      intro alternative rest hle low
      exact inOrder_of_clean rfl

theorem inOrder_operand_conditional {token : Token} {input : List Token}
    (henclosed : ∀ rest : List Token, rest.length ≤ input.length →
      ∀ low, (enclosed endLine rest).InOrder endLine low)
    (hbraced : ∀ rest : List Token, rest.length ≤ input.length →
      ∀ low, (braced endLine rest).InOrder endLine low) :
    (operand endLine .conditional token input).InOrder endLine low := by
  rw [operand_conditional]
  apply (inOrder_expect .lparen input).andThen
  intro _ afterOpening hleOpening low
  apply (henclosed afterOpening hleOpening low).andThen
  intro condition afterCondition hleCondition low
  apply (hbraced afterCondition (by omega) low).andThen
  intro consequence afterConsequence hleConsequence low
  apply (inOrder_of_clean (faults_accept .elseWord afterConsequence)).bind
  intro word afterWord hleWord low
  apply inOrder_conditionalTail
  apply hbraced
  omega

theorem inOrder_enclosed {input : List Token}
    (hinner : ∀ low, (expression endLine .lowest input).InOrder endLine low) :
    (enclosed endLine input).InOrder endLine low := by
  rw [enclosed]
  apply (hinner low).bind
  intro inner rest hle low
  exact (inOrder_expect .rparen rest).map

theorem inOrder_braced {input : List Token}
    (hblock : ∀ mark (rest : List Token), rest.length ≤ input.length →
      ∀ low, (block endLine mark rest).InOrder endLine low) :
    (braced endLine input).InOrder endLine low := by
  rw [braced]
  apply (inOrder_expect .lbrace input).andThen
  intro mark rest hle low
  exact (hblock mark rest hle low).map

theorem inOrder_block {mark : Token} {input : List Token}
    (hsequence : ∀ low, (sequence endLine .block input).InOrder endLine low) :
    (block endLine mark input).InOrder endLine low := by
  rw [block]
  apply (hsequence low).bind
  intro statements rest hle low
  exact (inOrder_of_clean (faults_advance rest)).map

theorem inOrder_statement_binding {token : Token} {input : List Token}
    (hword : token.kind = .letWord) : (statement endLine token input).InOrder endLine low := by
  rw [statement, hword]
  apply (inOrder_expect .ident input).andThen
  intro name afterName hleName low
  apply (inOrder_expect .assign afterName).andThen
  intro sign afterSign hleSign low
  exact (inOrder_of_clean (faults_skipStatement afterSign)).map

theorem inOrder_statement_result {token : Token} {input : List Token}
    (hword : token.kind = .returnWord) :
    (statement endLine token input).InOrder endLine low := by
  rw [statement, hword]
  exact (inOrder_of_clean (faults_skipStatement input)).map

theorem inOrder_statement_expression {token : Token} {input : List Token}
    (hlet : token.kind ≠ .letWord) (hreturn : token.kind ≠ .returnWord)
    (hfrom : (expressionFrom endLine .lowest token input).InOrder endLine token.line) :
    (statement endLine token input).InOrder endLine token.line := by
  rw [statement_eq_expression hlet hreturn]
  apply hfrom.bind
  intro value rest hle low
  exact (inOrder_of_clean (faults_accept .semicolon rest)).map

theorem inOrder_sequence_stop {scope : Scope} {input : List Token} (hends : Ends scope input) :
    (sequence endLine scope input).InOrder endLine low := by
  rw [sequence_of_ends hends]
  exact inOrder_of_clean rfl

theorem inOrder_sequence_cons {scope : Scope} {token : Token} {input : List Token}
    (hends : ¬ scope.endsAt token.kind = true)
    (hstatement : (statement endLine token input).InOrder endLine token.line)
    (hsequence : ∀ rest : List Token, rest.length ≤ input.length →
      ∀ low, (sequence endLine scope rest).InOrder endLine low) :
    (sequence endLine scope (token :: input)).InOrder endLine low := by
  rw [sequence, if_neg hends]
  apply InOrder.behind
  apply hstatement.bind
  intro first rest hle low
  exact (hsequence rest hle low).map

def inOrderMotive (endLine : Nat) : Motive where
  expression floor input := ∀ low, (expression endLine floor input).InOrder endLine low
  expressionFrom floor token input :=
    (expressionFrom endLine floor token input).InOrder endLine token.line
  operand opening token input := (operand endLine opening token input).InOrder endLine token.line
  enclosed input := ∀ low, (enclosed endLine input).InOrder endLine low
  braced input := ∀ low, (braced endLine input).InOrder endLine low
  chain floor left input := ∀ low, (chain endLine floor left input).InOrder endLine low
  block mark input := ∀ low, (block endLine mark input).InOrder endLine low
  statement token input := (statement endLine token input).InOrder endLine token.line
  sequence scope input := ∀ low, (sequence endLine scope input).InOrder endLine low

theorem inOrder_cases (endLine : Nat) : (inOrderMotive endLine).Cases where
  expression_nil _ := inOrder_expression_nil _
  expression_cons hfrom _ := inOrder_expression_cons hfrom
  expressionFrom_none := inOrder_expressionFrom_none
  expressionFrom_some := inOrder_expressionFrom_some
  operand_name := inOrder_operand_name _ _
  operand_integer := inOrder_operand_integer _ _
  operand_boolean := inOrder_operand_boolean _ _
  operand_unary := inOrder_operand_unary
  operand_group := inOrder_operand_group
  operand_conditional := inOrder_operand_conditional
  enclosed_of_expression hinner _ := inOrder_enclosed hinner
  braced_of_block hblock _ := inOrder_braced hblock
  chain_stop hstops _ := inOrder_chain_stop hstops
  chain_operator hfloor hright hchain _ := inOrder_chain_operator hfloor hright hchain
  block_of_sequence hsequence _ := inOrder_block hsequence
  statement_binding := inOrder_statement_binding
  statement_result := inOrder_statement_result
  statement_expression := inOrder_statement_expression
  sequence_stop hends _ := inOrder_sequence_stop hends
  sequence_cons hends hstatement hsequence _ := inOrder_sequence_cons hends hstatement hsequence

theorem inOrder_sequence (endLine : Nat) (scope : Scope) (input : List Token) (low : Nat) :
    (sequence endLine scope input).InOrder endLine low :=
  (inOrder_cases endLine).holds.sequence scope input low

theorem ascending_faults {tokens : List Token} {endLine low : Nat}
    (hlines : Ascending (low :: linesOf endLine tokens)) :
    ((start tokens endLine).program.2.faults.map Fault.line).Pairwise (· ≤ ·) := by
  have hfaults := inOrder_sequence endLine .program tokens low hlines
  exact hfaults.sublist ((List.sublist_append_left _ _).trans (List.sublist_cons_self _ _))

/-- On tokens whose lines never fall, up to the line of the end marker, the lines of the
faults never fall, and the tokens of every text are of that sort. -/
theorem fault_lines_ascend :
    (∀ (tokens : List Token) (endLine : Nat), (tokens.map Token.line).Pairwise (· ≤ ·) →
      (∀ token ∈ tokens, token.line ≤ endLine) →
      ((start tokens endLine).program.2.faults.map Fault.line).Pairwise (· ≤ ·)) ∧
    ∀ text : String,
      ((ofSource (.ofString text)).program.2.faults.map Fault.line).Pairwise (· ≤ ·) := by
  constructor
  · intro tokens endLine hlines hend
    exact ascending_faults (ascending_linesOf hlines hend)
  · intro text
    exact ascending_faults (Source.ascending_tokens (.ofString text))

/-- A binding without a name, and a condition with an unclosed group. -/
def unclosedTokens : List Token :=
  [⟨.letWord, "let", 1⟩, ⟨.ifWord, "if", 2⟩, ⟨.lparen, "(", 2⟩, ⟨.lparen, "(", 3⟩,
    ⟨.int, "0x", 4⟩, ⟨.semicolon, ";", 5⟩, ⟨.rbrace, "\x7d", 5⟩, ⟨.minus, "-", 7⟩]

theorem fault_lines_of_unclosedTokens :
    (start unclosedTokens 9).program.2.faults.map Fault.line = [2, 4, 5, 5, 5, 9] ∧
      ((start unclosedTokens 9).program.2.faults.map Fault.line).Pairwise (· ≤ ·) := by
  constructor
  · decide +kernel
  · exact fault_lines_ascend.1 unclosedTokens 9 (by decide) (by decide)

end Parser

end Scriptlet
