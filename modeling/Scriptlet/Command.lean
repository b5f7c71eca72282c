import Scriptlet.Session

/-!
# The command line

One argument at most is a source, or with the file flag the name of a file that
holds one; without it an interactive session starts.  Arguments are read from
left to right: a mistake or a request for the version ends the reading at once.
The generated help is left out, and asking for it is a mistake here.
-/

namespace Scriptlet

/-- What the program can be asked to do. -/
inductive Command where
  /-- Print the version. -/
  | version
  /-- Hold a session on the standard input. -/
  | session (mode : Session.Mode)
  /-- Run a source. -/
  | script (source : String)
  /-- Run the source in a file. -/
  | file (path : String)
deriving DecidableEq, Repr

namespace Command

inductive Flag where
  /-- The argument names a file. -/
  | file
  /-- The session answers with tokens. -/
  | tokens
  | version
deriving DecidableEq, Repr

/-- Flags by their long name. -/
def Flag.ofName? : String → Option Flag
  | "file" => some .file
  | "tokens" => some .tokens
  | "version" => some .version
  | _ => none

/-- Flags by their letter. -/
def Flag.ofLetter? : Char → Option Flag
  | 'f' => some .file
  | 't' => some .tokens
  | 'V' => some .version
  | _ => none

/-- What an argument is by its form. -/
inductive Argument where
  /-- Two dashes: no flags behind this point. -/
  | separator
  | flags (flags : List (Option Flag))
  | plain (text : String)
deriving DecidableEq, Repr

/-- A single dash and the empty argument are plain; otherwise one dash stands
before flag letters and two before a flag name. -/
def Argument.ofString (argument : String) : Argument :=
  match argument.toList with
  | ['-'] => .plain argument
  | ['-', '-'] => .separator
  | '-' :: '-' :: name => .flags [Flag.ofName? (String.ofList name)]
  | '-' :: letters => .flags (letters.map Flag.ofLetter?)
  | _ => .plain argument

structure Options where
  file : Bool := false
  tokens : Bool := false
  contents : Option String := none
deriving DecidableEq, Repr

/-- Why the reading of arguments ended early. -/
inductive Halt where
  | usage
  | version
deriving DecidableEq, Repr

namespace Options

/-- Sets a flag, which may be done once. -/
def set (options : Options) : Option Flag → Except Halt Options
  | none => .error .usage
  | some .version => .error .version
  | some .file => if options.file then .error .usage else .ok { options with file := true }
  | some .tokens => if options.tokens then .error .usage else .ok { options with tokens := true }

def setContents (options : Options) (text : String) : Except Halt Options :=
  if options.contents.isSome then .error .usage else .ok { options with contents := some text }

/-- Reads arguments on top of those read before. -/
def read (options : Options) : List String → Except Halt Options
  | [] => .ok options
  | argument :: arguments => do
    match Argument.ofString argument with
    | .separator => arguments.foldlM setContents options
    | .flags flags => read (← flags.foldlM set options) arguments
    | .plain text => read (← options.setContents text) arguments

/-- The command that all arguments together spell.  Without contents there is
nothing to run, and the file flag has no effect. -/
def command (options : Options) : Command :=
  match options.contents with
  | none => .session (if options.tokens then .tokens else .eval)
  | some contents => if options.file then .file contents else .script contents

end Options

def ofArguments? (arguments : List String) : Option Command :=
  match Options.read {} arguments with
  | .ok options => some options.command
  | .error .version => some .version
  | .error .usage => none

/-- What a command finds around it. -/
structure Surroundings where
  /-- The name of the user, if it is known. -/
  user : Option String
  /-- The whole standard input. -/
  input : List UInt8
  /-- The contents of the files that can be read. -/
  file? : String → Option (List UInt8)

/-- What a command leaves behind. -/
structure Report where
  exit : Nat
  output : List UInt8
  errors : String
deriving DecidableEq, Repr

def versionLine : String := "maron 0.1.0\n"

def greeting (user : Option String) : String :=
  "Hello " ++ user.getD "there" ++ "! This is the Maron programming language!\n" ++
    "Feel free to type in commands\n"

def unreadable (path : String) : String :=
  "Failed to read the input file '" ++ path ++ "'. Perhaps this file does not exist?\n"

/-- Runs a source: its value goes to the output, its faults to the errors. -/
def runScript (source : String) : Report :=
  match run source with
  | .ok none => ⟨0, [], ""⟩
  | .ok (some value) => ⟨0, Text.bytes (value.inspect ++ "\n"), ""⟩
  | .error faults => ⟨1, [], Fault.report faults ++ "\n"⟩

/-- Runs the source in a file.  A file that cannot be read and a file that holds
no text are told apart by nothing. -/
def runFile (path : String) (contents : Option (List UInt8)) : Report :=
  match contents.bind Text.ofBytes? with
  | none => ⟨1, [], unreadable path⟩
  | some source => runScript source

/-- Greets the user and holds a session on the whole input. -/
def holdSession (mode : Session.Mode) (user : Option String) (input : List UInt8) : Report :=
  let session := Session.transcript mode input none
  let output := Text.bytes (greeting user) ++ session.output
  match session.ending with
  | .ok () => ⟨0, output, ""⟩
  | .error failure => ⟨1, output, failure.message ++ "\n"⟩

def execute (surroundings : Surroundings) : Command → Report
  | version => ⟨0, Text.bytes versionLine, ""⟩
  | session mode => holdSession mode surroundings.user surroundings.input
  | script source => runScript source
  | file path => runFile path (surroundings.file? path)

end Command

end Scriptlet
