import Scriptlet.Command

/-!
# The program

Joins the command line to the console.  A session is held line by line, so that
every prompt is seen before its line is typed; the prompt and the response to a
line are the parts that `Session.converse` is made of.
-/

namespace Scriptlet

open Command

/-- Reads the bytes of one line, its line feed included. -/
partial def readLineBytes (input : IO.FS.Stream) (line : Array UInt8) : IO (List UInt8) := do
  let byte ← input.read 1
  if byte.isEmpty then
    return line.toList
  else if byte.data.contains Text.lineFeed then
    return (line ++ byte.data).toList
  else
    readLineBytes input (line ++ byte.data)

/-- Prints what a part of a session writes, and gives how it ends. -/
def perform (part : Session.Dialogue Unit) (output : IO.FS.Stream) :
    IO (Except Session.Failure Unit) := do
  let (ending, sink) := part.run.run ⟨none, #[]⟩
  output.write ⟨sink.written⟩
  output.flush
  return ending

/-- Prompts for a line and responds to it until the input ends. -/
partial def converseLive (mode : Session.Mode) (input output errors : IO.FS.Stream) :
    IO UInt32 := do
  let _ ← perform (Session.write Session.prompt) output
  match Text.lines (← readLineBytes input #[]) with
  | [] => return 0
  | line :: _ =>
    match ← perform (Session.respond mode line) output with
    | .ok () => converseLive mode input output errors
    | .error failure =>
      errors.putStr (failure.message ++ "\n")
      return 1

def readFile? (path : String) : IO (Option (List UInt8)) := do
  try
    let contents ← IO.FS.readBinFile path
    return some contents.data.toList
  catch _ =>
    return none

def deliver (report : Report) (output errors : IO.FS.Stream) : IO UInt32 := do
  output.write ⟨report.output.toArray⟩
  errors.putStr report.errors
  return report.exit.toUInt32

end Scriptlet

open Scriptlet Command in
def main (arguments : List String) : IO UInt32 := do
  let input ← IO.getStdin
  let output ← IO.getStdout
  let errors ← IO.getStderr
  match ofArguments? arguments with
  | none =>
    errors.putStr "Usage: maron [-f] [-t] [-V] [CONTENTS]\n"
    return 2
  | some (.session mode) =>
    output.putStr (greeting (← IO.getEnv "USER"))
    converseLive mode input output errors
  | some (.file path) => deliver (runFile path (← readFile? path)) output errors
  | some command => deliver (command.execute ⟨none, [], fun _ => none⟩) output errors
