import Scriptlet.Session
import Scriptlet.Proofs.Text.Lines

/-!
# A full sink cuts a session short

A session stops at the first write that its sink does not take as a whole.  Two writes in
a row are one write of both texts, on every sink, so a whole session is a single write
followed by its ending, and the sink cuts that write.  Nor does it matter in which parts a
sink takes the bytes of a write.
-/

namespace Scriptlet.Session

/-- What a write leaves of a sink that takes `room` bytes more, and how it ends. -/
def deliver (bytes : List UInt8) (room : Nat) (written : Array UInt8) :
    Except Failure Unit × Sink :=
  (if bytes.length ≤ room then .ok () else .error .fullSink,
    ⟨some (room - bytes.length), written ++ bytes.take room⟩)

theorem write_some (text : String) (room : Nat) (written : Array UInt8) :
    write text ⟨some room, written⟩ = deliver (Text.bytes text) room written :=
  rfl

theorem deliver_nil (room : Nat) (written : Array UInt8) :
    deliver [] room written = (.ok (), ⟨some room, written⟩) := by
  simp [deliver]

theorem deliver_full {bytes : List UInt8} (hbytes : bytes ≠ []) (written : Array UInt8) :
    deliver bytes 0 written = (.error .fullSink, ⟨some 0, written⟩) := by
  simp [deliver, hbytes]

theorem deliver_append_of_le {first : List UInt8} {room : Nat} (hfits : first.length ≤ room)
    (second : List UInt8) (written : Array UInt8) :
    deliver (first ++ second) room written =
      deliver second (room - first.length) (written ++ first) := by
  have hlength : first.length + second.length ≤ room ↔ second.length ≤ room - first.length := by
    omega
  simp only [deliver, List.length_append, hlength, Nat.sub_add_eq, List.take_append,
    List.take_of_length_le hfits, written_append]

theorem deliver_append_of_lt {first : List UInt8} {room : Nat} (hfull : room < first.length)
    (second : List UInt8) (written : Array UInt8) :
    deliver (first ++ second) room written = deliver first room written := by
  have hfirst : ¬ first.length ≤ room := by omega
  have hboth : ¬ first.length + second.length ≤ room := by omega
  have hroom : room - (first.length + second.length) = room - first.length := by omega
  simp only [deliver, List.length_append, hfirst, hboth, hroom,
    List.take_append_of_le_length (Nat.le_of_lt hfull)]

/-! ## Writes in parts -/

/-- A write to a sink that takes `room` bytes more, in any parts.  What is left of the bytes
is offered again until all are taken, or none is. -/
inductive WritesInParts :
    List UInt8 → Nat → Array UInt8 → Except Failure Unit × Sink → Prop where
  | done (room : Nat) (written : Array UInt8) :
      WritesInParts [] room written (.ok (), ⟨some room, written⟩)
  | refused {bytes : List UInt8} (written : Array UInt8) :
      bytes ≠ [] → WritesInParts bytes 0 written (.error .fullSink, ⟨some 0, written⟩)
  | taken {part rest : List UInt8} {room : Nat} {written : Array UInt8}
      {outcome : Except Failure Unit × Sink} :
      part ≠ [] → part.length ≤ room →
      WritesInParts rest (room - part.length) (written ++ part) outcome →
      WritesInParts (part ++ rest) room written outcome

section Parts

variable {bytes : List UInt8} {room : Nat} {written : Array UInt8}

theorem WritesInParts.eq_deliver {outcome : Except Failure Unit × Sink}
    (hwrites : WritesInParts bytes room written outcome) :
    outcome = deliver bytes room written := by
  induction hwrites with
  | done room written => exact (deliver_nil room written).symm
  | refused written hbytes => exact (deliver_full hbytes written).symm
  | taken _ hfits _ ih => rw [ih, deliver_append_of_le hfits]

theorem WritesInParts.append {part : List UInt8} {outcome : Except Failure Unit × Sink}
    (hfits : part.length ≤ room)
    (hrest : WritesInParts bytes (room - part.length) (written ++ part) outcome) :
    WritesInParts (part ++ bytes) room written outcome := by
  by_cases hpart : part = []
  · subst hpart
    simpa using hrest
  · exact .taken hpart hfits hrest

theorem writesInParts_deliver : WritesInParts bytes room written (deliver bytes room written) := by
  have hfits : (bytes.take room).length ≤ room := List.length_take_le room bytes
  rw [← List.take_append_drop room bytes, deliver_append_of_le hfits]
  apply WritesInParts.append hfits
  by_cases hleft : bytes.drop room = []
  · rw [hleft, deliver_nil]
    exact .done _ _
  · have hroom : room - (bytes.take room).length = 0 := by
      rw [List.drop_eq_nil_iff] at hleft
      rw [List.length_take]
      omega
    rw [hroom, deliver_full hleft]
    exact .refused _ hleft

end Parts

/-- Two writes in a row are one write. -/
theorem write_append (first second : String) :
    write (first ++ second) = (do write first; write second) := by
  funext sink
  obtain ⟨room, written⟩ := sink
  cases room with
  | none =>
      change _ = (do write first; write second : Dialogue Unit).run.run ⟨none, written⟩
      rw [run_andThen]
      simp only [write, Text.bytes_append, written_append]
      rfl
  | some room =>
      change _ = (do write first; write second : Dialogue Unit).run.run ⟨some room, written⟩
      have hfirst : (write first).run.run ⟨some room, written⟩ =
          deliver (Text.bytes first) room written := rfl
      rw [run_andThen, hfirst, write_some, Text.bytes_append]
      by_cases hfits : (Text.bytes first).length ≤ room
      · rw [deliver_append_of_le hfits]
        simp only [deliver, hfits, if_true, List.take_of_length_le]
        rfl
      · rw [deliver_append_of_lt (Nat.lt_of_not_le hfits)]
        simp only [deliver, hfits, if_false]

theorem write_empty : write "" = pure () := by
  funext sink
  obtain ⟨room, written⟩ := sink
  cases room with
  | none => rfl
  | some room => exact deliver_nil room written

theorem forM_write (texts : List String) : texts.forM write = write (String.join texts) := by
  induction texts with
  | nil => exact write_empty.symm
  | cons text texts ih =>
      rw [String.join_cons, write_append, ← ih]
      rfl

/-- Ends a session like this. -/
def conclude : Except Failure Unit → Dialogue Unit
  | .ok () => pure ()
  | .error failure => throw failure

/-- A session is one write and its ending. -/
theorem converse_eq_write (mode : Mode) (lines : List (List UInt8)) :
    ∃ text ending, converse mode lines = (do write text; conclude ending) := by
  induction lines with
  | nil => exact ⟨prompt, .ok (), (bind_pure_unit).symm⟩
  | cons line lines ih =>
      obtain ⟨text, ending, hlines⟩ := ih
      cases hdecode : Text.ofBytes? line with
      | none =>
          refine ⟨prompt, .error .malformedLine, ?_⟩
          rw [converse, respond, hdecode]
          rfl
      | some content =>
          refine ⟨prompt ++ (String.join (answer mode content) ++ text), ending, ?_⟩
          rw [converse, respond, hdecode, hlines]
          simp only [forM_write, write_append, bind_assoc]

theorem run_conclude (ending : Except Failure Unit) (sink : Sink) :
    (conclude ending).run.run sink = (ending, sink) := by
  cases ending <;> rfl

theorem run_write_none (text : String) (ending : Except Failure Unit) (written : Array UInt8) :
    (do write text; conclude ending : Dialogue Unit).run.run ⟨none, written⟩ =
      (ending, ⟨none, written ++ Text.bytes text⟩) := by
  rw [run_andThen]
  exact run_conclude ending _

theorem run_write_some (text : String) (ending : Except Failure Unit) (room : Nat)
    (written : Array UInt8) :
    (do write text; conclude ending : Dialogue Unit).run.run ⟨some room, written⟩ =
      (if (Text.bytes text).length ≤ room then ending else .error .fullSink,
        ⟨some (room - (Text.bytes text).length), written ++ (Text.bytes text).take room⟩) := by
  have htext : (write text).run.run ⟨some room, written⟩ =
      deliver (Text.bytes text) room written := rfl
  rw [run_andThen, htext]
  by_cases hfits : (Text.bytes text).length ≤ room
  · simp only [deliver, hfits, if_true, run_conclude]
  · simp only [deliver, hfits, if_false]

/-- A sink that takes `room` bytes gets the first bytes of what a session writes to a sink
without a limit.  The session ends the same way if those are all, and fails for want of
room otherwise.  How the sink takes the bytes of a write in parts makes no difference. -/
theorem transcript_truncated (mode : Mode) (input : List UInt8) (room : Nat) :
    let full := transcript mode input none
    (∀ text left written outcome, WritesInParts (Text.bytes text) left written outcome ↔
      outcome = write text ⟨some left, written⟩) ∧
    transcript mode input (some room) =
      ⟨if full.output.length ≤ room then full.ending else .error .fullSink,
        full.output.take room⟩ := by
  constructor
  · intro text left written outcome
    constructor
    · intro hwrites
      exact hwrites.eq_deliver
    · intro houtcome
      subst houtcome
      exact writesInParts_deliver
  · obtain ⟨text, ending, hlines⟩ := converse_eq_write mode (Text.lines input)
    simp only [transcript, hlines, run_write_none, run_write_some]
    simp

end Scriptlet.Session
