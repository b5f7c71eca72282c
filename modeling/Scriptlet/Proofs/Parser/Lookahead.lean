import Scriptlet.Proofs.Grammar.Completeness

/-!
# Reading with one token of lookahead

A reader looks at the tokens it takes and at the first token it leaves.  So a whole reading
can be framed: it stays the same before another rest that begins alike or with an inert
token.  A clean reading can be closed: what it consumed can be completed so that the reader
stops right behind.  And a failure can be pinpointed: the first fault is about the token
behind a completable prefix, whatever stands behind that token.
-/

namespace Scriptlet

/-- Tokens of such a kind continue no expression, no statement and no
conditional. -/
def Kind.Inert (kind : Kind) : Prop :=
  kind.precedence = .lowest ∧ kind ≠ .semicolon ∧ kind ≠ .elseWord

instance (kind : Kind) : Decidable kind.Inert :=
  inferInstanceAs (Decidable (_ ∧ _ ∧ _))

def Settled (rest : List Token) : Prop :=
  Front (fun token => token.kind.Inert) rest

/-- The new rest may stand where the old one stood. -/
def Replaces (old new : List Token) : Prop :=
  Front (fun token => token.kind.Inert ∨ old.head?.map Token.kind = some token.kind) new

/-- The fault is about this token. -/
def Fault.FoundAt (token : Token) : Fault → Prop
  | .unexpected _ found line => found = token.kind ∧ line = token.line
  | .noOperand kind line => kind = token.kind ∧ line = token.line
  | .badInteger literal line => literal = token.literal ∧ line = token.line

abbrev Reader (α : Type) := (input : List Token) → Step α input

theorem Settled.append {first second : List Token} (hfirst : Settled first)
    (hsecond : Settled second) : Settled (first ++ second) := by
  cases first with
  | nil => exact hsecond
  | cons token tail => exact front_cons_iff.mpr (front_cons_iff.mp hfirst)

theorem Settled.replaces {new : List Token} (hnew : Settled new) (old : List Token) :
    Replaces old new :=
  hnew.imp fun _ htoken => .inl htoken

theorem Replaces.append_left {old new : List Token} (hreplaces : Replaces old new)
    (consumed : List Token) : Replaces (consumed ++ old) (consumed ++ new) := by
  cases consumed with
  | nil => exact hreplaces
  | cons token tail => exact front_cons_iff.mpr (.inr rfl)

theorem replaces_cons (token : Token) (old new : List Token) :
    Replaces (token :: old) (token :: new) :=
  front_cons_iff.mpr (.inr rfl)

namespace Reader

open Step

variable {α β : Type}

/-- What was consumed can be completed so that the reader reads it all and stops
at every settled rest that `stop` admits. -/
def Completable (reader : Reader α) (stop : List Token → Prop) (consumed : List Token) : Prop :=
  ∃ completion value, EndFree completion ∧ (consumed = [] → Settled completion) ∧
    ∀ rest, Settled rest → stop rest →
      (reader (consumed ++ completion ++ rest)).Reads True value rest

def Framed (reader : Reader α) (stop : List Token → Prop) (input : List Token) : Prop :=
  ∀ value rest, (reader input).Reads True value rest →
    ∃ consumed, input = consumed ++ rest ∧ ∀ other, Replaces rest other → stop other →
      (reader (consumed ++ other)).Reads True value other

def Closable (reader : Reader α) (stop : List Token → Prop) (input : List Token) : Prop :=
  ∀ value rest, (reader input).Reads False value rest →
    ∃ consumed, input = consumed ++ rest ∧ Completable reader stop consumed

def Pinpointed (endLine : Nat) (reader : Reader α) (stop : List Token → Prop)
    (input : List Token) : Prop :=
  ∀ fault, (reader input).Fails fault →
    ∃ before after, input = before ++ after ∧
      fault.FoundAt (after.headD (Source.endToken endLine)) ∧
      Completable reader stop before ∧
      ∀ token tail, after = token :: tail →
        ∀ other, (reader (before ++ token :: other)).Fails fault

/-- On this input the reader looks ahead by no more than one token. -/
structure Predictive (endLine : Nat) (reader : Reader α) (stop : List Token → Prop)
    (input : List Token) : Prop where
  stops : ∀ value rest, (reader input).Reads False value rest → stop rest
  framed : Framed reader stop input
  closable : Closable reader stop input
  pinpointed : Pinpointed endLine reader stop input

def anywhere : List Token → Prop := fun _ => True

/-! ## Composition -/

def bind (first : Reader α) (next : α → Reader β) : Reader β :=
  fun input => (first input).bind fun value rest _ => next value rest

theorem Completable.bind_start {first : Reader α} {next : α → Reader β}
    {stop : List Token → Prop} {consumed : List Token}
    (hfirst : Completable first anywhere consumed)
    (hnext : ∀ value, Completable (next value) stop []) :
    Completable (first.bind next) stop consumed := by
  obtain ⟨completion, value, hfree, hsettled, hreads⟩ := hfirst
  obtain ⟨more, result, hfreeMore, hsettledMore, hreadsMore⟩ := hnext value
  refine ⟨completion ++ more, result, hfree.append hfreeMore, ?_, ?_⟩
  · intro hconsumed
    exact (hsettled hconsumed).append (hsettledMore rfl)
  · intro rest hrest hstop
    have hread := hreads (more ++ rest) ((hsettledMore rfl).append hrest) trivial
    have hassoc : consumed ++ (completion ++ more) ++ rest =
        consumed ++ completion ++ (more ++ rest) := by simp
    rw [hassoc]
    exact reads_bind_iff.mpr
      ⟨value, more ++ rest, hread.length_le, hread, hreadsMore rest hrest hstop⟩

theorem Completable.bind_next {first : Reader α} {next : α → Reader β}
    {stop : List Token → Prop} {value : α} {consumed more rest : List Token}
    (hfirst : ∀ other, Replaces (more ++ rest) other →
      (first (consumed ++ other)).Reads True value other)
    (hnext : Completable (next value) stop more) :
    Completable (first.bind next) stop (consumed ++ more) := by
  obtain ⟨completion, result, hfree, hsettled, hreads⟩ := hnext
  refine ⟨completion, result, hfree, ?_, ?_⟩
  · intro hnil
    exact hsettled (List.append_eq_nil_iff.mp hnil).2
  · intro other hother hstop
    have hreplaces : Replaces (more ++ rest) (more ++ (completion ++ other)) := by
      cases more with
      | nil => exact ((hsettled rfl).append hother).replaces _
      | cons token tail => exact replaces_cons token _ _
    have hread := hfirst _ hreplaces
    have hassoc : consumed ++ more ++ completion ++ other =
        consumed ++ (more ++ (completion ++ other)) := by simp
    rw [hassoc]
    refine reads_bind_iff.mpr ⟨value, _, hread.length_le, hread, ?_⟩
    rw [← List.append_assoc]
    exact hreads other hother hstop

section Bind

variable {endLine : Nat} {first : Reader α} {next : α → Reader β} {stop : List Token → Prop}
  {input : List Token}

theorem Framed.bind (hfirst : Framed first anywhere input)
    (hnext : ∀ value (rest : List Token), rest.length ≤ input.length →
      Framed (next value) stop rest) :
    Framed (first.bind next) stop input := by
  intro result rest hread
  obtain ⟨value, middle, hle, hvalue, hresult⟩ := reads_bind_iff.mp hread
  obtain ⟨consumed, hconsumed, hfirstOther⟩ := hfirst value middle hvalue
  obtain ⟨more, hmore, hnextOther⟩ := hnext value middle hle result rest hresult
  refine ⟨consumed ++ more, by rw [hconsumed, hmore, List.append_assoc], ?_⟩
  intro other hother hstop
  have hreplaces : Replaces middle (more ++ other) := by
    rw [hmore]
    exact hother.append_left more
  have hvalueOther := hfirstOther (more ++ other) hreplaces trivial
  rw [List.append_assoc]
  exact reads_bind_iff.mpr ⟨value, more ++ other, hvalueOther.length_le, hvalueOther,
    hnextOther other hother hstop⟩

/-- Behind a first part that reads, what the second part completes the whole
completes.  Where the first part left nothing, it is completed itself. -/
theorem completable_bind_of_reads (hfirst : Predictive endLine first anywhere input)
    (hstart : ∀ value, Completable (next value) stop []) {value : α} {middle : List Token}
    (hvalue : (first input).Reads False value middle) {more rest : List Token}
    (hmiddle : middle = more ++ rest) (hnext : Completable (next value) stop more) :
    ∃ consumed, input = consumed ++ middle ∧
      Completable (first.bind next) stop (consumed ++ more) := by
  by_cases hnil : middle = []
  · obtain ⟨consumed, hconsumed, hcompletable⟩ := hfirst.closable value middle hvalue
    have hmore : more = [] := (List.append_eq_nil_iff.mp (hmiddle.symm.trans hnil)).1
    refine ⟨consumed, hconsumed, ?_⟩
    rw [hmore, List.append_nil]
    exact hcompletable.bind_start hstart
  · obtain ⟨consumed, hconsumed, hother⟩ :=
      hfirst.framed value middle (hvalue.whole_of_ne_nil hnil)
    refine ⟨consumed, hconsumed, ?_⟩
    rw [hmiddle] at hother
    exact Completable.bind_next (fun other hreplaces => hother other hreplaces trivial) hnext

theorem Closable.bind (hfirst : Predictive endLine first anywhere input)
    (hnext : ∀ value (rest : List Token), rest.length ≤ input.length →
      Closable (next value) stop rest)
    (hstart : ∀ value, Completable (next value) stop []) :
    Closable (first.bind next) stop input := by
  intro result rest hread
  obtain ⟨value, middle, hle, hvalue, hresult⟩ := reads_bind_iff.mp hread
  obtain ⟨more, hmore, hcompletable⟩ := hnext value middle hle result rest hresult
  obtain ⟨consumed, hconsumed, hwhole⟩ :=
    completable_bind_of_reads hfirst hstart hvalue hmore hcompletable
  exact ⟨consumed ++ more, by rw [hconsumed, hmore, List.append_assoc], hwhole⟩

theorem Pinpointed.bind (hfirst : Predictive endLine first anywhere input)
    (hnext : ∀ value (rest : List Token), rest.length ≤ input.length →
      Pinpointed endLine (next value) stop rest)
    (hstart : ∀ value, Completable (next value) stop []) :
    Pinpointed endLine (first.bind next) stop input := by
  intro fault hfails
  rcases fails_bind_iff.mp hfails with hfails | ⟨value, middle, hle, hvalue, hfails⟩
  · obtain ⟨before, after, hinput, hfound, hcompletable, hother⟩ :=
      hfirst.pinpointed fault hfails
    refine ⟨before, after, hinput, hfound, hcompletable.bind_start hstart, ?_⟩
    intro token tail hafter other
    exact fails_bind_iff.mpr (.inl (hother token tail hafter other))
  · obtain ⟨before, after, hmiddle, hfound, hcompletable, hother⟩ :=
      hnext value middle hle fault hfails
    obtain ⟨consumed, hconsumed, hwhole⟩ :=
      completable_bind_of_reads hfirst hstart hvalue hmiddle hcompletable
    refine ⟨consumed ++ before, after, by rw [hconsumed, hmiddle, List.append_assoc], hfound,
      hwhole, ?_⟩
    intro token tail hafter other
    have hnil : middle ≠ [] := by
      rw [hmiddle, hafter]
      simp
    obtain ⟨same, hsame, hframe⟩ := hfirst.framed value middle (hvalue.whole_of_ne_nil hnil)
    have hreplaces : Replaces middle (before ++ token :: other) := by
      rw [hmiddle, hafter]
      exact (replaces_cons token tail other).append_left before
    have hread := hframe _ hreplaces trivial
    rw [List.append_cancel_right (hsame.symm.trans hconsumed)] at hread
    rw [List.append_assoc]
    exact fails_bind_iff.mpr (.inr ⟨value, _, hread.length_le, hread.loosen,
      hother token tail hafter other⟩)

theorem Predictive.bind (hfirst : Predictive endLine first anywhere input)
    (hnext : ∀ value (rest : List Token), rest.length ≤ input.length →
      Predictive endLine (next value) stop rest)
    (hstart : ∀ value, Completable (next value) stop []) :
    Predictive endLine (first.bind next) stop input where
  stops := by
    intro result rest hread
    obtain ⟨value, middle, hle, _, hresult⟩ := reads_bind_iff.mp hread
    exact (hnext value middle hle).stops result rest hresult
  framed := hfirst.framed.bind fun value rest hle => (hnext value rest hle).framed
  closable := Closable.bind hfirst (fun value rest hle => (hnext value rest hle).closable) hstart
  pinpointed :=
    Pinpointed.bind hfirst (fun value rest hle => (hnext value rest hle).pinpointed) hstart

end Bind

section Map

variable {endLine : Nat} {reader : Reader α} {stop : List Token → Prop} {input : List Token}

def map (f : α → β) (reader : Reader α) : Reader β :=
  fun input => (reader input).map f

theorem Completable.map (f : α → β) {consumed : List Token}
    (hreader : Completable reader stop consumed) :
    Completable (reader.map f) stop consumed := by
  obtain ⟨completion, value, hfree, hsettled, hreads⟩ := hreader
  refine ⟨completion, f value, hfree, hsettled, ?_⟩
  intro rest hrest hstop
  exact reads_map_iff.mpr ⟨value, hreads rest hrest hstop, rfl⟩

theorem Predictive.map (f : α → β) (hreader : Predictive endLine reader stop input) :
    Predictive endLine (reader.map f) stop input := by
  constructor
  · intro result rest hread
    obtain ⟨value, hvalue, _⟩ := reads_map_iff.mp hread
    exact hreader.stops value rest hvalue
  · intro result rest hread
    obtain ⟨value, hvalue, rfl⟩ := reads_map_iff.mp hread
    obtain ⟨consumed, hinput, hother⟩ := hreader.framed value rest hvalue
    refine ⟨consumed, hinput, ?_⟩
    intro other hreplaces hstop
    exact reads_map_iff.mpr ⟨value, hother other hreplaces hstop, rfl⟩
  · intro result rest hread
    obtain ⟨value, hvalue, rfl⟩ := reads_map_iff.mp hread
    obtain ⟨consumed, hinput, hcompletable⟩ := hreader.closable value rest hvalue
    exact ⟨consumed, hinput, hcompletable.map f⟩
  · intro fault hfails
    obtain ⟨before, after, hinput, hfound, hcompletable, hother⟩ :=
      hreader.pinpointed fault (fails_map_iff.mp hfails)
    refine ⟨before, after, hinput, hfound, hcompletable.map f, ?_⟩
    intro token tail hafter other
    exact fails_map_iff.mpr (hother token tail hafter other)

end Map

/-! ## Readers of one token -/

section Primitive

variable {endLine : Nat} {input : List Token}

theorem completable_pure (value : α) :
    Completable (fun _ => Step.pure value) anywhere [] :=
  ⟨[], value, List.forall_mem_nil _, fun _ => front_nil,
    fun _ _ _ => reads_pure_iff.mpr ⟨rfl, rfl⟩⟩

theorem predictive_pure (value : α) :
    Predictive endLine (fun _ => Step.pure value) anywhere input := by
  constructor
  · exact fun _ _ _ => trivial
  · intro result rest hread
    obtain ⟨rfl, rfl⟩ := reads_pure_iff.mp hread
    exact ⟨[], rfl, fun _ _ _ => reads_pure_iff.mpr ⟨rfl, rfl⟩⟩
  · intro result rest hread
    obtain ⟨rfl, rfl⟩ := reads_pure_iff.mp hread
    exact ⟨[], rfl, completable_pure _⟩
  · intro fault hfails
    exact absurd hfails not_fails_pure

theorem completable_expect {kind : Kind} (hinert : kind.Inert) (hend : kind ≠ .eof) :
    Completable (expect endLine kind) anywhere [] := by
  refine ⟨[⟨kind, "", 0⟩], some ⟨kind, "", 0⟩, ?_, fun _ => front_cons_iff.mpr hinert, ?_⟩
  · intro token hmem
    rw [List.mem_singleton.mp hmem]
    exact hend
  · intro rest _ _
    exact reads_expect_cons rfl

theorem predictive_expect {kind : Kind} (hinert : kind.Inert) (hend : kind ≠ .eof) :
    Predictive endLine (expect endLine kind) anywhere input := by
  constructor
  · exact fun _ _ _ => trivial
  · intro found rest hread
    obtain ⟨token, rfl, hkind, rfl⟩ := reads_expect_iff.mp hread
    exact ⟨[token], rfl, fun _ _ _ => reads_expect_cons hkind⟩
  · intro found rest hread
    obtain ⟨token, rfl, hkind, rfl⟩ := reads_expect_iff.mp hread
    refine ⟨[token], rfl, [], some token, List.forall_mem_nil _, fun _ => front_nil, ?_⟩
    intro rest _ _
    exact reads_expect_cons hkind
  · intro fault hfails
    refine ⟨[], input, rfl, ?_, completable_expect hinert hend, ?_⟩
    · cases input with
      | nil =>
          rw [fails_expect_nil_iff.mp hfails]
          exact ⟨rfl, rfl⟩
      | cons token tail =>
          rw [(fails_expect_cons_iff.mp hfails).2]
          exact ⟨rfl, rfl⟩
    · intro token tail hinput other
      rw [hinput, fails_expect_cons_iff] at hfails
      exact fails_expect_cons_iff.mpr hfails

theorem reads_accept_none {kind : Kind} (hinert : ¬ kind.Inert) {rest : List Token}
    (hrest : Settled rest) : (accept kind rest).Reads True none rest := by
  refine reads_accept_iff.mpr (.inr ⟨rfl, rfl, hrest.imp ?_⟩)
  intro token htoken hkind
  exact hinert (hkind ▸ htoken)

theorem completable_accept {kind : Kind} (hinert : ¬ kind.Inert) :
    Completable (accept kind) anywhere [] :=
  ⟨[], none, List.forall_mem_nil _, fun _ => front_nil,
    fun _ hrest _ => reads_accept_none hinert hrest⟩

theorem predictive_accept {kind : Kind} (hinert : ¬ kind.Inert) :
    Predictive endLine (accept kind) anywhere input := by
  have htake : ∀ {token : Token} (other : List Token), token.kind = kind →
      (accept kind (token :: other)).Reads True (some token) other := by
    intro token other hkind
    exact reads_accept_iff.mpr (.inl ⟨token, rfl, hkind, rfl⟩)
  constructor
  · exact fun _ _ _ => trivial
  · intro found rest hread
    rcases reads_accept_iff.mp hread with ⟨token, rfl, hkind, rfl⟩ | ⟨rfl, rfl, hother⟩
    · exact ⟨[token], rfl, fun other _ _ => htake other hkind⟩
    · refine ⟨[], rfl, ?_⟩
      intro other hreplaces _
      refine reads_accept_iff.mpr (.inr ⟨rfl, rfl, hreplaces.imp ?_⟩)
      intro token htoken hkind
      rcases htoken with htoken | hsame
      · exact hinert (hkind ▸ htoken)
      · obtain ⟨old, hold, holdKind⟩ := Option.map_eq_some_iff.mp hsame
        exact hother old hold (holdKind.trans hkind)
  · intro found rest hread
    rcases reads_accept_iff.mp hread with ⟨token, rfl, hkind, rfl⟩ | ⟨rfl, rfl, _⟩
    · exact ⟨[token], rfl, [], some token, List.forall_mem_nil _, fun _ => front_nil,
        fun other _ _ => htake other hkind⟩
    · exact ⟨[], rfl, completable_accept hinert⟩
  · intro fault hfails
    exact absurd hfails not_fails_accept

end Primitive

section AndThen

variable {endLine : Nat} {first : Reader (Option α)} {next : α → Reader β} {otherwise : β}
  {input : List Token}

/-- What goes on with something found, and stops if nothing was. -/
def found (otherwise : β) (next : α → Reader β) : Option α → Reader β
  | some value => next value
  | none => fun _ => .pure otherwise

def andThen (first : Reader (Option α)) (otherwise : β) (next : α → Reader β) : Reader β :=
  fun input => (first input).andThen otherwise fun value rest _ => next value rest

theorem andThen_eq_bind : first.andThen otherwise next = first.bind (found otherwise next) := by
  funext input
  unfold andThen bind Step.andThen
  congr 1
  funext value rest hle
  cases value with
  | none => rfl
  | some value => rfl

theorem completable_found (hnext : ∀ value, Completable (next value) anywhere [])
    (value : Option α) : Completable (found otherwise next value) anywhere [] := by
  cases value with
  | none => exact completable_pure otherwise
  | some value => exact hnext value

theorem Completable.andThen_start (hfirst : Completable first anywhere [])
    (hnext : ∀ value, Completable (next value) anywhere []) :
    Completable (first.andThen otherwise next) anywhere [] := by
  rw [andThen_eq_bind]
  exact hfirst.bind_start (completable_found hnext)

theorem Predictive.andThen (hfirst : Predictive endLine first anywhere input)
    (hnext : ∀ value (rest : List Token), rest.length ≤ input.length →
      Predictive endLine (next value) anywhere rest)
    (hstart : ∀ value, Completable (next value) anywhere []) :
    Predictive endLine (first.andThen otherwise next) anywhere input := by
  rw [andThen_eq_bind]
  refine hfirst.bind ?_ (completable_found hstart)
  intro value rest hle
  cases value with
  | none => exact predictive_pure otherwise
  | some value => exact hnext value rest hle

end AndThen

section Behind

variable {endLine : Nat} {reader inner : Reader α} {stop : List Token → Prop} {token : Token}
  {input : List Token}

theorem Completable.behind (hbehind : ∀ input, reader (token :: input) = (inner input).behind token)
    {consumed : List Token} (hinner : Completable inner stop consumed) :
    Completable reader stop (token :: consumed) := by
  obtain ⟨completion, value, hfree, _, hreads⟩ := hinner
  refine ⟨completion, value, hfree, fun hnil => absurd hnil (List.cons_ne_nil _ _), ?_⟩
  intro rest hrest hstop
  rw [List.cons_append, List.cons_append, hbehind, reads_behind_iff]
  exact hreads rest hrest hstop

theorem Predictive.behind (hbehind : ∀ input, reader (token :: input) = (inner input).behind token)
    (hinner : Predictive endLine inner stop input) :
    Predictive endLine reader stop (token :: input) := by
  constructor
  · intro value rest hread
    rw [hbehind, reads_behind_iff] at hread
    exact hinner.stops value rest hread
  · intro value rest hread
    rw [hbehind, reads_behind_iff] at hread
    obtain ⟨consumed, rfl, hother⟩ := hinner.framed value rest hread
    refine ⟨token :: consumed, rfl, ?_⟩
    intro other hreplaces hstop
    rw [List.cons_append, hbehind, reads_behind_iff]
    exact hother other hreplaces hstop
  · intro value rest hread
    rw [hbehind, reads_behind_iff] at hread
    obtain ⟨consumed, rfl, hcompletable⟩ := hinner.closable value rest hread
    exact ⟨token :: consumed, rfl, hcompletable.behind hbehind⟩
  · intro fault hfails
    rw [hbehind, fails_behind_iff] at hfails
    obtain ⟨before, after, rfl, hfound, hcompletable, hother⟩ := hinner.pinpointed fault hfails
    refine ⟨token :: before, after, rfl, hfound, hcompletable.behind hbehind, ?_⟩
    intro next tail hafter other
    rw [List.cons_append, hbehind, fails_behind_iff]
    exact hother next tail hafter other

theorem predictive_of_fails {fault : Fault} (hfound : fault.FoundAt token)
    (hfails : ∀ input, (reader (token :: input)).Fails fault)
    (hstart : Completable reader stop []) :
    Predictive endLine reader stop (token :: input) := by
  have hnot : ∀ whole value rest, ¬ (reader (token :: input)).Reads whole value rest := by
    intro whole value rest hread
    have hfault := hfails input
    rw [Fails, hread.faults_eq] at hfault
    contradiction
  constructor
  · intro value rest hread
    exact absurd hread (hnot _ value rest)
  · intro value rest hread
    exact absurd hread (hnot _ value rest)
  · intro value rest hread
    exact absurd hread (hnot _ value rest)
  · intro other hother
    obtain rfl := Option.some.inj ((hfails input).symm.trans hother)
    refine ⟨[], token :: input, rfl, hfound, hstart, ?_⟩
    intro next tail hcons others
    obtain ⟨rfl, _⟩ := List.cons.inj hcons
    exact hfails others

end Behind

end Reader

end Scriptlet
