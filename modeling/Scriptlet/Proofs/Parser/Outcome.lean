import Scriptlet.Parser.Step

/-!
# Outcomes of reading steps

A step either reads, and then it finds nothing wrong, gives a value and leaves a
rest, or it fails, and then there is a first fault.  The laws of this file take
the outcome of a composed step apart into outcomes of its parts.  Proofs about
the parser open its functions down to the combinators and go on with these laws;
none of them looks into the fields of a step.
-/

namespace Scriptlet.Step

variable {α β : Type} {input : List Token} {whole : Prop}

/-- The step finds nothing wrong, gives `value` and leaves `rest`.  A whole
reading does so without running over the end marker. -/
structure Reads (step : Step α input) (whole : Prop) (value : α) (rest : List Token) :
    Prop where
  faults_eq : step.faults = []
  value_eq : step.value = value
  rest_eq : step.rest = rest
  overrun_eq : whole → step.overrun = 0

/-- The step finds something wrong, and `fault` first. -/
def Fails (step : Step α input) (fault : Fault) : Prop :=
  step.faults.head? = some fault

theorem Reads.suffix {step : Step α input} {value : α} {rest : List Token}
    (hread : step.Reads whole value rest) : rest <:+ input :=
  hread.rest_eq ▸ step.rest_suffix

theorem Reads.length_le {step : Step α input} {value : α} {rest : List Token}
    (hread : step.Reads whole value rest) : rest.length ≤ input.length :=
  hread.suffix.length_le

theorem Reads.whole_of_ne_nil {step : Step α input} {value : α} {rest : List Token}
    (hread : step.Reads whole value rest) (hrest : rest ≠ []) :
    step.Reads True value rest := by
  refine ⟨hread.faults_eq, hread.value_eq, hread.rest_eq, fun _ => ?_⟩
  rcases step.overrun_at_end with hoverrun | hend
  · exact hoverrun
  · exact absurd (hread.rest_eq.symm.trans hend) hrest

theorem Reads.loosen {step : Step α input} {value : α} {rest : List Token}
    (hread : step.Reads whole value rest) : step.Reads False value rest :=
  ⟨hread.faults_eq, hread.value_eq, hread.rest_eq, False.elim⟩

theorem reads_pure_iff {given value : α} {rest : List Token} :
    (pure given : Step α input).Reads whole value rest ↔ value = given ∧ rest = input := by
  constructor
  · intro hread
    exact ⟨hread.value_eq.symm, hread.rest_eq.symm⟩
  · rintro ⟨rfl, rfl⟩
    exact ⟨rfl, rfl, rfl, fun _ => rfl⟩

theorem not_fails_pure {given : α} {fault : Fault} :
    ¬ (pure given : Step α input).Fails fault := by
  simp [Fails, pure]

theorem not_reads_fail {given value : α} {fault : Fault} {rest : List Token} :
    ¬ (fail given fault : Step α input).Reads whole value rest := by
  intro hread
  exact absurd hread.faults_eq (by simp [fail])

theorem fails_fail_iff {given : α} {found fault : Fault} :
    (fail given found : Step α input).Fails fault ↔ fault = found := by
  simp only [Fails, fail, List.head?_cons, Option.some.injEq]
  exact eq_comm

theorem reads_behind_iff {token : Token} {step : Step α input} {value : α}
    {rest : List Token} :
    (step.behind token).Reads whole value rest ↔ step.Reads whole value rest :=
  ⟨fun hread => ⟨hread.1, hread.2, hread.3, hread.4⟩,
    fun hread => ⟨hread.1, hread.2, hread.3, hread.4⟩⟩

theorem fails_behind_iff {token : Token} {step : Step α input} {fault : Fault} :
    (step.behind token).Fails fault ↔ step.Fails fault :=
  Iff.rfl

theorem reads_map_iff {f : α → β} {step : Step α input} {value : β} {rest : List Token} :
    (step.map f).Reads whole value rest ↔
      ∃ before, step.Reads whole before rest ∧ value = f before := by
  constructor
  · intro hread
    exact ⟨step.value, ⟨hread.1, rfl, hread.3, hread.4⟩, hread.2.symm⟩
  · rintro ⟨before, hread, rfl⟩
    exact ⟨hread.1, congrArg f hread.2, hread.3, hread.4⟩

theorem fails_map_iff {f : α → β} {step : Step α input} {fault : Fault} :
    (step.map f).Fails fault ↔ step.Fails fault :=
  Iff.rfl

theorem reads_bind_iff {first : Step α input}
    {next : α → (rest : List Token) → rest.length ≤ input.length → Step β rest}
    {value : β} {rest : List Token} :
    (first.bind next).Reads whole value rest ↔
      ∃ between middle hle,
        first.Reads whole between middle ∧ (next between middle hle).Reads whole value rest := by
  constructor
  · intro hread
    obtain ⟨hfirst, hnext⟩ := List.append_eq_nil_iff.mp hread.faults_eq
    have hsum : whole → first.overrun + (next first.value first.rest
        first.rest_suffix.length_le).overrun = 0 := hread.overrun_eq
    refine ⟨first.value, first.rest, first.rest_suffix.length_le, ?_, ?_⟩
    · exact ⟨hfirst, rfl, rfl, fun hwhole => (Nat.add_eq_zero_iff.mp (hsum hwhole)).1⟩
    · exact ⟨hnext, hread.value_eq, hread.rest_eq,
        fun hwhole => (Nat.add_eq_zero_iff.mp (hsum hwhole)).2⟩
  · rintro ⟨between, middle, hle, ⟨hfaults, rfl, rfl, hoverrun⟩, hnext⟩
    refine ⟨?_, hnext.value_eq, hnext.rest_eq, fun hwhole => ?_⟩
    · exact List.append_eq_nil_iff.mpr ⟨hfaults, hnext.faults_eq⟩
    · exact Nat.add_eq_zero_iff.mpr ⟨hoverrun hwhole, hnext.overrun_eq hwhole⟩

theorem fails_bind_iff {first : Step α input}
    {next : α → (rest : List Token) → rest.length ≤ input.length → Step β rest}
    {fault : Fault} :
    (first.bind next).Fails fault ↔
      first.Fails fault ∨
        ∃ between middle hle,
          first.Reads False between middle ∧ (next between middle hle).Fails fault := by
  have hfaults : (first.bind next).Fails fault ↔ (first.faults ++ (next first.value first.rest
      first.rest_suffix.length_le).faults).head? = some fault := Iff.rfl
  cases hfirst : first.faults with
  | nil =>
      rw [hfaults, hfirst, List.nil_append]
      constructor
      · intro hnext
        exact .inr ⟨first.value, first.rest, first.rest_suffix.length_le,
          ⟨hfirst, rfl, rfl, False.elim⟩, hnext⟩
      · rintro (hfails | ⟨between, middle, hle, ⟨_, rfl, rfl, _⟩, hnext⟩)
        · simp [Fails, hfirst] at hfails
        · exact hnext
  | cons found others =>
      rw [hfaults, hfirst, List.cons_append, List.head?_cons]
      constructor
      · intro hfound
        exact .inl (by rw [Fails, hfirst, List.head?_cons, hfound])
      · rintro (hfails | ⟨between, middle, hle, hread, _⟩)
        · rwa [Fails, hfirst, List.head?_cons] at hfails
        · rw [hread.faults_eq] at hfirst
          contradiction

theorem reads_andThen_iff {first : Step (Option α) input} {otherwise : β}
    {next : α → (rest : List Token) → rest.length ≤ input.length → Step β rest}
    {value : β} {rest : List Token}
    (hfinds : ∀ middle, ¬ first.Reads whole none middle) :
    (first.andThen otherwise next).Reads whole value rest ↔
      ∃ found middle hle,
        first.Reads whole (some found) middle ∧ (next found middle hle).Reads whole value rest := by
  unfold andThen
  rw [reads_bind_iff]
  constructor
  · rintro ⟨between, middle, hle, hfirst, hnext⟩
    cases between with
    | none => exact absurd hfirst (hfinds middle)
    | some found => exact ⟨found, middle, hle, hfirst, hnext⟩
  · rintro ⟨found, middle, hle, hfirst, hnext⟩
    exact ⟨some found, middle, hle, hfirst, hnext⟩

/-! ## Steps that look at one token -/

theorem reads_expect_iff {endLine : Nat} {kind : Kind} {found : Option Token}
    {rest : List Token} :
    (expect endLine kind input).Reads whole found rest ↔
      ∃ token, found = some token ∧ token.kind = kind ∧ input = token :: rest := by
  cases input with
  | nil =>
      simp only [expect, reduceCtorEq, and_false, exists_false, iff_false]
      exact not_reads_fail
  | cons head tail =>
      by_cases hkind : head.kind = kind
      · simp only [expect, if_pos hkind, reads_behind_iff, reads_pure_iff, List.cons.injEq]
        constructor
        · rintro ⟨rfl, rfl⟩
          exact ⟨head, rfl, hkind, rfl, rfl⟩
        · rintro ⟨token, rfl, _, rfl, rfl⟩
          exact ⟨rfl, rfl⟩
      · simp only [expect, if_neg hkind, List.cons.injEq]
        constructor
        · intro hread
          exact absurd hread not_reads_fail
        · rintro ⟨token, _, htoken, rfl, _⟩
          exact absurd htoken hkind

theorem reads_expect_cons {endLine : Nat} {kind : Kind} {token : Token}
    (hkind : token.kind = kind) :
    (expect endLine kind (token :: input)).Reads whole (some token) input :=
  reads_expect_iff.mpr ⟨token, rfl, hkind, rfl⟩

theorem not_reads_expect_none {endLine : Nat} {kind : Kind} (rest : List Token) :
    ¬ (expect endLine kind input).Reads whole none rest := by
  rw [reads_expect_iff]
  rintro ⟨token, hnone, _⟩
  contradiction

theorem fails_expect_nil_iff {endLine : Nat} {kind : Kind} {fault : Fault} :
    (expect endLine kind []).Fails fault ↔ fault = .unexpected kind .eof endLine :=
  fails_fail_iff

theorem fails_expect_cons_iff {endLine : Nat} {kind : Kind} {token : Token} {fault : Fault} :
    (expect endLine kind (token :: input)).Fails fault ↔
      token.kind ≠ kind ∧ fault = .unexpected kind token.kind token.line := by
  by_cases hkind : token.kind = kind
  · simp only [expect, if_pos hkind, fails_behind_iff]
    constructor
    · intro hfails
      exact absurd hfails not_fails_pure
    · intro hfault
      exact absurd hkind hfault.1
  · simp only [expect, if_neg hkind, fails_fail_iff]
    exact ⟨fun hfault => ⟨hkind, hfault⟩, fun hfault => hfault.2⟩

section Composed

variable {endLine : Nat} {kind : Kind} {token : Token} {otherwise : β}

theorem expect_andThen_of_kind
    {next : Token → (rest : List Token) → rest.length ≤ (token :: input).length → Step β rest}
    (hkind : token.kind = kind) :
    (expect endLine kind (token :: input)).andThen otherwise next =
      (next token input (Nat.le_succ _)).behind token := by
  have hexpect : expect endLine kind (token :: input) = .behind token (.pure (some token)) :=
    if_pos hkind
  rw [hexpect]
  simp only [andThen, bind, behind, pure, List.nil_append, Nat.zero_add]

theorem expect_andThen_of_ne
    {next : Token → (rest : List Token) → rest.length ≤ (token :: input).length → Step β rest}
    (hkind : token.kind ≠ kind) :
    (expect endLine kind (token :: input)).andThen otherwise next =
      fail otherwise (.unexpected kind token.kind token.line) := by
  have hexpect : expect endLine kind (token :: input) =
      .fail none (.unexpected kind token.kind token.line) := if_neg hkind
  rw [hexpect]
  rfl

theorem expect_andThen_nil
    {next : Token → (rest : List Token) → rest.length ≤ [].length → Step β rest} :
    (expect endLine kind []).andThen otherwise next =
      fail otherwise (.unexpected kind .eof endLine) :=
  rfl

end Composed

theorem reads_accept_iff {kind : Kind} {found : Option Token} {rest : List Token} :
    (accept kind input).Reads whole found rest ↔
      (∃ token, found = some token ∧ token.kind = kind ∧ input = token :: rest) ∨
        found = none ∧ rest = input ∧ ∀ token ∈ input.head?, token.kind ≠ kind := by
  cases input with
  | nil =>
      simp only [accept, reads_pure_iff]
      simp
  | cons head tail =>
      by_cases hkind : head.kind = kind
      · simp only [accept, if_pos hkind, reads_behind_iff, reads_pure_iff, List.cons.injEq]
        constructor
        · rintro ⟨rfl, rfl⟩
          exact .inl ⟨head, rfl, hkind, rfl, rfl⟩
        · rintro (⟨token, rfl, _, rfl, rfl⟩ | ⟨_, _, hother⟩)
          · exact ⟨rfl, rfl⟩
          · exact absurd hkind (hother head rfl)
      · simp only [accept, if_neg hkind, reads_pure_iff, List.cons.injEq]
        constructor
        · rintro ⟨rfl, rfl⟩
          refine .inr ⟨rfl, rfl, ?_⟩
          rintro token ⟨⟩
          exact hkind
        · rintro (⟨token, _, htoken, rfl, _⟩ | ⟨rfl, rfl, _⟩)
          · exact absurd htoken hkind
          · exact ⟨rfl, rfl⟩

theorem faults_accept (kind : Kind) (input : List Token) : (accept kind input).faults = [] := by
  cases input with
  | nil => rfl
  | cons token rest =>
      rw [accept]
      split
      · rfl
      · rfl

theorem not_fails_accept {kind : Kind} {fault : Fault} :
    ¬ (accept kind input).Fails fault := by
  simp [Fails, faults_accept]

theorem reads_advance_cons {token : Token} {value : Unit} :
    (advance (token :: input)).Reads whole value input :=
  ⟨rfl, rfl, rfl, fun _ => rfl⟩

theorem reads_advance_nil {value : Unit} : (advance []).Reads False value [] :=
  ⟨rfl, rfl, rfl, False.elim⟩

theorem reads_advance_iff {value : Unit} {rest : List Token} :
    (advance input).Reads whole value rest ↔
      (∃ token, input = token :: rest) ∨ (input = [] ∧ rest = [] ∧ ¬ whole) := by
  cases input with
  | nil =>
      constructor
      · intro hread
        refine .inr ⟨rfl, hread.rest_eq.symm, ?_⟩
        intro hwhole
        exact absurd (hread.overrun_eq hwhole) Nat.one_ne_zero
      · intro hend
        rcases hend with ⟨token, hcons⟩ | ⟨_, rfl, hcut⟩
        · contradiction
        · exact ⟨rfl, rfl, rfl, fun hwhole => absurd hwhole hcut⟩
  | cons token tail =>
      constructor
      · intro hread
        exact .inl ⟨token, congrArg (token :: ·) hread.rest_eq⟩
      · intro hend
        rcases hend with ⟨other, hcons⟩ | ⟨hnil, _⟩
        · obtain ⟨_, rfl⟩ := List.cons.inj hcons
          exact reads_advance_cons
        · contradiction

theorem faults_advance (input : List Token) : (advance input).faults = [] := by
  cases input with
  | nil => rfl
  | cons token rest => rfl

theorem not_fails_advance {fault : Fault} : ¬ (advance input).Fails fault := by
  simp [Fails, faults_advance]

def EndsSkip (token : Token) : Prop :=
  token.kind = .semicolon ∨ token.kind = .eof

theorem skipStatement_of_endsSkip {token : Token} (hends : EndsSkip token) :
    skipStatement (token :: input) = .behind token (.pure ()) :=
  if_pos hends

theorem skipStatement_of_not_endsSkip {token : Token} (hends : ¬ EndsSkip token) :
    skipStatement (token :: input) = .behind token (skipStatement input) :=
  if_neg hends

theorem reads_skipStatement_iff {value : Unit} {rest : List Token} :
    (skipStatement input).Reads whole value rest ↔
      (∃ skipped mark, (∀ token ∈ skipped, ¬ EndsSkip token) ∧ EndsSkip mark ∧
        input = skipped ++ mark :: rest) ∨
      (¬ whole ∧ rest = [] ∧ ∀ token ∈ input, ¬ EndsSkip token) := by
  induction input with
  | nil =>
      rw [skipStatement, reads_advance_iff]
      simp [and_comm]
  | cons token tail ih =>
      by_cases hends : EndsSkip token
      · rw [skipStatement_of_endsSkip hends, reads_behind_iff, reads_pure_iff]
        constructor
        · intro hread
          obtain ⟨_, rfl⟩ := hread
          exact .inl ⟨[], token, List.forall_mem_nil _, hends, rfl⟩
        · intro hend
          rcases hend with ⟨skipped, mark, hskipped, _, hcons⟩ | ⟨_, _, hnone⟩
          · cases skipped with
            | nil => exact ⟨rfl, (List.cons.inj hcons).2.symm⟩
            | cons other others =>
                obtain ⟨rfl, _⟩ := List.cons.inj hcons
                exact absurd hends (hskipped token List.mem_cons_self)
          · exact absurd hends (hnone token List.mem_cons_self)
      · rw [skipStatement_of_not_endsSkip hends, reads_behind_iff, ih]
        constructor
        · intro hend
          rcases hend with ⟨skipped, mark, hskipped, hmark, rfl⟩ | ⟨hcut, hrest, hnone⟩
          · exact .inl ⟨token :: skipped, mark, List.forall_mem_cons.mpr ⟨hends, hskipped⟩,
              hmark, rfl⟩
          · exact .inr ⟨hcut, hrest, List.forall_mem_cons.mpr ⟨hends, hnone⟩⟩
        · intro hend
          rcases hend with ⟨skipped, mark, hskipped, hmark, hcons⟩ | ⟨hcut, hrest, hnone⟩
          · cases skipped with
            | nil =>
                obtain ⟨rfl, _⟩ := List.cons.inj hcons
                exact absurd hmark hends
            | cons other others =>
                exact .inl ⟨others, mark, (List.forall_mem_cons.mp hskipped).2, hmark,
                  (List.cons.inj hcons).2⟩
          · exact .inr ⟨hcut, hrest, (List.forall_mem_cons.mp hnone).2⟩

theorem faults_skipStatement (input : List Token) : (skipStatement input).faults = [] := by
  induction input with
  | nil => rfl
  | cons token rest ih =>
      rw [skipStatement]
      split
      · rfl
      · exact ih

theorem not_fails_skipStatement {fault : Fault} : ¬ (skipStatement input).Fails fault := by
  simp [Fails, faults_skipStatement]

end Scriptlet.Step
