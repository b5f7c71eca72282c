import Scriptlet.Value
import Scriptlet.Text.Bytes

/-!
# Interactive sessions

A session prints a prompt, reads a line, answers it and starts over, until the
input ends.  Every line is a source of its own: nothing is kept from one line
to the next.

A session stops early when a line is not text, or when the sink it writes to
takes no more bytes.
-/

namespace Scriptlet

/-- Where a session writes to. -/
structure Sink where
  /-- How many bytes are still taken; a sink without a number takes any. -/
  room : Option Nat
  written : Array UInt8 := #[]
deriving DecidableEq, Repr

namespace Session

/-- What a session answers to a line. -/
inductive Mode where
  /-- The value of the line, or its faults. -/
  | eval
  /-- The tokens of the line. -/
  | tokens
deriving DecidableEq, Repr

instance : Inhabited Mode := ⟨.eval⟩

/-- Why a session stopped before its input ended. -/
inductive Failure where
  /-- A line was not text in UTF-8. -/
  | malformedLine
  /-- The sink did not take all that was written. -/
  | fullSink
deriving DecidableEq, Repr

def Failure.message : Failure → String
  | malformedLine => "stream did not contain valid UTF-8"
  | fullSink => "failed to write whole buffer"

/-- A part of a session, which writes to the sink and may stop the session. -/
abbrev Dialogue := ExceptT Failure (StateM Sink)

/-- Writes as much of a text as the sink takes, and fails if that is not all. -/
def write (text : String) : Dialogue Unit := fun sink =>
  match sink.room with
  | none => (.ok (), { sink with written := sink.written ++ Text.bytes text })
  | some room =>
    (if (Text.bytes text).length ≤ room then .ok () else .error .fullSink,
      ⟨some (room - (Text.bytes text).length), sink.written ++ (Text.bytes text).take room⟩)

theorem written_append (written : Array UInt8) (first second : List UInt8) :
    written ++ (first ++ second) = written ++ first ++ second := by
  apply Array.ext'
  simp

theorem run_andThen (first second : Dialogue Unit) (sink : Sink) :
    (do first; second : Dialogue Unit).run.run sink =
      match first.run.run sink with
      | (.ok (), after) => second.run.run after
      | (.error failure, after) => (.error failure, after) := by
  simp only [ExceptT.run_bind, StateT.run_bind]
  cases first.run.run sink with
  | mk ending after => cases ending <;> rfl

def prompt : String := ">> "

/-- The value of a line, or a heading and its faults. -/
def answerValue (line : String) : List String :=
  let read := (Parser.ofSource (.ofString line)).program
  if read.2.faults.isEmpty then
    (read.1.eval.map fun value => value.inspect ++ "\n").toList
  else
    "parser errors:\n" :: read.2.faults.map fun fault => "\t" ++ fault.message ++ "\n"

def answer (mode : Mode) (line : String) : List String :=
  match mode with
  | .tokens => (Source.ofString line).tokens.map fun token => token.dump ++ "\n"
  | .eval => answerValue line

/-- Answers a line, or stops the session if the line is not text. -/
def respond (mode : Mode) (line : List UInt8) : Dialogue Unit :=
  match Text.ofBytes? line with
  | none => throw .malformedLine
  | some text => (answer mode text).forM write

/-- Prompts for each line and responds to it; behind the last line stands one
more prompt. -/
def converse (mode : Mode) : List (List UInt8) → Dialogue Unit
  | [] => write prompt
  | line :: lines => do
    write prompt
    respond mode line
    converse mode lines

/-- How a session ended, and everything it wrote. -/
structure Transcript where
  ending : Except Failure Unit
  output : List UInt8

/-- A whole session on an input, with a sink that takes `room` bytes. -/
def transcript (mode : Mode) (input : List UInt8) (room : Option Nat) : Transcript :=
  let result := (converse mode (Text.lines input)).run.run ⟨room, #[]⟩
  ⟨result.1, result.2.written.toList⟩

end Session

end Scriptlet
