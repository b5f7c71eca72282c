import Scriptlet.Fault

/-!
# Reading steps

A step reads some tokens off the front of a list.  Behind the last token the
end marker stands any number of times; a step may run over it, and then the
list is not shortened but the marker is counted.  What is left of the list is
always a suffix of it, and that fact is part of a step: it is what makes the
reading of nested constructs terminate.  So is the fact that the marker is only
run over when no token is left.
-/

namespace Scriptlet

/-- The outcome of reading from the front of `input`. -/
structure Step (α : Type) (input : List Token) where
  value : α
  /-- What was found wrong, in reading order. -/
  faults : List Fault
  /-- How often the end marker behind the list was read over. -/
  overrun : Nat
  /-- The tokens left. -/
  rest : List Token
  rest_suffix : rest <:+ input
  overrun_at_end : overrun = 0 ∨ rest = []

namespace Step

variable {α β : Type} {input : List Token}

/-- How many tokens were read, end markers included. -/
def taken (step : Step α input) : Nat :=
  input.length - step.rest.length + step.overrun

def pure (value : α) : Step α input :=
  ⟨value, [], 0, input, List.suffix_rfl, .inl rfl⟩

def fail (value : α) (fault : Fault) : Step α input :=
  ⟨value, [fault], 0, input, List.suffix_rfl, .inl rfl⟩

/-- Reads one token, or the end marker. -/
def advance : (input : List Token) → Step Unit input
  | [] => ⟨(), [], 1, [], List.suffix_rfl, .inr rfl⟩
  | token :: rest => ⟨(), [], 0, rest, List.suffix_cons token rest, .inl rfl⟩

/-- The same step on a list whose first token was read before. -/
def behind (token : Token) (step : Step α input) : Step α (token :: input) :=
  ⟨step.value, step.faults, step.overrun, step.rest,
    step.rest_suffix.trans (List.suffix_cons token input), step.overrun_at_end⟩

def map (f : α → β) (step : Step α input) : Step β input :=
  ⟨f step.value, step.faults, step.overrun, step.rest, step.rest_suffix, step.overrun_at_end⟩

/-- A step that starts where the marker was run over runs over it as well. -/
theorem overrun_add_at_end (first : Step α input) (second : Step β first.rest) :
    first.overrun + second.overrun = 0 ∨ second.rest = [] := by
  rcases second.overrun_at_end with hsecond | hsecond
  · rcases first.overrun_at_end with hfirst | hfirst
    · exact .inl (by omega)
    · have hsuffix : second.rest <:+ [] := hfirst ▸ second.rest_suffix
      exact .inr (List.suffix_nil.mp hsuffix)
  · exact .inr hsecond

/-- Continues where a step left off. -/
def bind (first : Step α input)
    (next : α → (rest : List Token) → rest.length ≤ input.length → Step β rest) : Step β input :=
  let second := next first.value first.rest first.rest_suffix.length_le
  ⟨second.value, first.faults ++ second.faults, first.overrun + second.overrun, second.rest,
    second.rest_suffix.trans first.rest_suffix, overrun_add_at_end first second⟩

/-- Continues where a step left off if it found something, and stops with
`otherwise` if it did not. -/
def andThen (first : Step (Option α) input) (otherwise : β)
    (next : α → (rest : List Token) → rest.length ≤ input.length → Step β rest) : Step β input :=
  first.bind fun found rest h =>
    match found with
    | some value => next value rest h
    | none => .pure otherwise

/-- Reads a token of the kind `kind`, which is never that of the end marker.  A
token of another kind is a fault and stays where it is. -/
def expect (endLine : Nat) (kind : Kind) : (input : List Token) → Step (Option Token) input
  | [] => fail none (.unexpected kind .eof endLine)
  | token :: _ =>
    if token.kind = kind then .behind token (.pure (some token))
    else fail none (.unexpected kind token.kind token.line)

/-- Reads a token if it is of the kind `kind`. -/
def accept (kind : Kind) : (input : List Token) → Step (Option Token) input
  | [] => .pure none
  | token :: _ =>
    if token.kind = kind then .behind token (.pure (some token)) else .pure none

/-- Reads up to and including the next semicolon, or the next end marker. -/
def skipStatement : (input : List Token) → Step Unit input
  | [] => advance []
  | token :: rest =>
    if token.kind = .semicolon ∨ token.kind = .eof then .behind token (.pure ())
    else .behind token (skipStatement rest)

@[simp] theorem taken_pure (value : α) : (pure value : Step α input).taken = 0 := by
  simp [taken, pure]

@[simp] theorem taken_fail (value : α) (fault : Fault) :
    (fail value fault : Step α input).taken = 0 := by
  simp [taken, fail]

@[simp] theorem taken_advance (input : List Token) : (advance input).taken = 1 := by
  cases input <;> simp [taken, advance]

@[simp] theorem taken_map (f : α → β) (step : Step α input) : (step.map f).taken = step.taken :=
  rfl

/-- The token read before counts as read. -/
@[simp] theorem taken_behind (token : Token) (step : Step α input) :
    (step.behind token).taken = step.taken + 1 := by
  have left := step.rest_suffix.length_le
  simp only [taken, behind, List.length_cons]
  omega

@[simp] theorem taken_bind (first : Step α input)
    (next : α → (rest : List Token) → rest.length ≤ input.length → Step β rest) :
    (first.bind next).taken =
      first.taken + (next first.value first.rest first.rest_suffix.length_le).taken := by
  have afterFirst := first.rest_suffix.length_le
  have afterSecond := (next first.value first.rest afterFirst).rest_suffix.length_le
  simp only [taken, bind]
  omega

end Step

end Scriptlet
