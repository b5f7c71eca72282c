import Scriptlet.Command
import Scriptlet.Proofs.Source.Layout
import Scriptlet.Proofs.Text.Lines

/-!
# Sessions answer line by line

With a sink that takes everything, what a part of a session writes and how it ends do not
depend on what was written before.  So a whole session is the exchanges on its lines, one
after the other.  A line that is not text ends the session behind its prompt, and the bytes
behind that line are never looked at.
-/

namespace Scriptlet

theorem Source.line_of_mem_tokens {text : String} (hline : '\n' ∉ text.toList) {token : Token}
    (hmem : token ∈ (Source.ofString text).tokens) : token.line = 1 := by
  obtain ⟨pieces, last, htokens, hlayout⟩ := exists_layout (ofString text)
  rw [← htokens] at hmem
  obtain ⟨piece, hpiece, rfl⟩ := List.mem_map.mp hmem
  obtain ⟨before, after, rfl⟩ := List.append_of_mem hpiece
  have hcount : text.toList.count '\n' = 0 := List.count_eq_zero.mpr hline
  have htext : text.toList = (before ++ piece :: after).flatMap Piece.text ++ last :=
    hlayout.text_eq
  rw [hlayout.lines before piece after rfl]
  simp only [htext, List.flatMap_append, List.flatMap_cons, Piece.text, List.count_append] at hcount
  simp only [ofString, List.count_append]
  omega

theorem ne_nil_of_run_eq_error {text : String} {faults : List Fault}
    (hrun : run text = .error faults) : faults ≠ [] := by
  simp only [run] at hrun
  split at hrun
  next => contradiction
  next hfaulty =>
    rw [Except.error.inj hrun] at hfaulty
    simpa using hfaulty

theorem Fault.report_append_newline {faults : List Fault} (hne : faults ≠ []) :
    Fault.report faults ++ "\n" = String.join (faults.map fun fault => fault.message ++ "\n") := by
  induction faults with
  | nil => contradiction
  | cons fault faults ih =>
      cases faults with
      | nil => simp [Fault.report]
      | cons next faults =>
          have htail := ih (by simp)
          rw [List.map_cons, String.join_cons, ← htail]
          simp [Fault.report, String.append_assoc]

namespace Session

/-- With a sink that takes everything, the dialogue ends like this and writes this. -/
def Writes (dialogue : Dialogue Unit) (ending : Except Failure Unit) (output : List UInt8) : Prop :=
  ∀ written, dialogue.run.run ⟨none, written⟩ = (ending, ⟨none, written ++ output⟩)

theorem writes_write (text : String) : Writes (write text) (.ok ()) (Text.bytes text) := by
  intro written
  rfl

theorem writes_throw (failure : Failure) : Writes (throw failure) (.error failure) [] := by
  intro written
  rw [Array.appendList_nil]
  rfl

theorem Writes.andThen {first second : Dialogue Unit} {ending : Except Failure Unit}
    {output further : List UInt8} (hfirst : Writes first (.ok ()) output)
    (hsecond : Writes second ending further) :
    Writes (do first; second) ending (output ++ further) := by
  intro written
  rw [run_andThen, hfirst, written_append]
  exact hsecond (written ++ output)

theorem Writes.stopped {first : Dialogue Unit} {failure : Failure} {output : List UInt8}
    (hfirst : Writes first (.error failure) output) (second : Dialogue Unit) :
    Writes (do first; second) (.error failure) output := by
  intro written
  rw [run_andThen, hfirst]

theorem writes_forM_write (texts : List String) :
    Writes (texts.forM write) (.ok ()) (Text.bytes (String.join texts)) := by
  induction texts with
  | nil =>
      intro written
      rw [String.join_nil, Text.bytes_empty, Array.appendList_nil]
      rfl
  | cons text texts ih =>
      rw [String.join_cons, Text.bytes_append]
      exact (writes_write text).andThen ih

/-! ## Exchanges -/

/-- What is printed in answer to a line, by the value of the line or by its tokens. -/
def reply (mode : Mode) (line : String) : String :=
  match mode with
  | .tokens => String.join ((Source.ofString line).tokens.map fun token => token.dump ++ "\n")
  | .eval =>
    match run line with
    | .ok none => ""
    | .ok (some value) => value.inspect ++ "\n"
    | .error faults =>
      "parser errors:\n" ++ String.join (faults.map fun fault => "\t" ++ fault.message ++ "\n")

/-- The bytes of a prompt and of the answer to the line typed behind it. -/
def exchange (mode : Mode) (line : String) : List UInt8 :=
  Text.bytes (prompt ++ reply mode line)

theorem join_answer (mode : Mode) (line : String) :
    String.join (answer mode line) = reply mode line := by
  cases mode with
  | tokens => rfl
  | eval =>
      simp only [answer, answerValue, reply, run]
      generalize (Parser.ofSource (.ofString line)).program = read
      by_cases hclean : read.2.faults.isEmpty
      · simp only [hclean, if_true]
        cases read.1.eval with
        | none => rfl
        | some value => simp
      · simp [hclean]

theorem writes_respond_text (mode : Mode) (text : String) :
    Writes (respond mode (Text.bytes text)) (.ok ()) (Text.bytes (reply mode text)) := by
  have hdecode : Text.ofBytes? (Text.bytes text) = some text :=
    Text.ofBytes?_eq_some_iff.mpr rfl
  rw [respond, hdecode, ← join_answer]
  exact writes_forM_write (answer mode text)

theorem writes_respond_malformed (mode : Mode) {line : List UInt8}
    (hline : ∀ text, Text.bytes text ≠ line) :
    Writes (respond mode line) (.error .malformedLine) [] := by
  rw [respond, Text.ofBytes?_eq_none_iff.mpr hline]
  exact writes_throw .malformedLine

theorem writes_converse_text {mode : Mode} {lines : List (List UInt8)}
    {ending : Except Failure Unit} {output : List UInt8} (text : String)
    (hlines : Writes (converse mode lines) ending output) :
    Writes (converse mode (Text.bytes text :: lines)) ending (exchange mode text ++ output) := by
  rw [converse, exchange, Text.bytes_append, List.append_assoc]
  exact (writes_write prompt).andThen ((writes_respond_text mode text).andThen hlines)

theorem writes_converse_malformed (mode : Mode) {line : List UInt8}
    (hline : ∀ text, Text.bytes text ≠ line) (lines : List (List UInt8)) :
    Writes (converse mode (line :: lines)) (.error .malformedLine) (Text.bytes prompt) := by
  have hstopped := (writes_respond_malformed mode hline).stopped (converse mode lines)
  have hwrites := (writes_write prompt).andThen hstopped
  rw [List.append_nil] at hwrites
  exact hwrites

/-- A conversation goes on behind any number of lines that are text as it would without
them. -/
theorem writes_converse_append {mode : Mode} {lines : List (List UInt8)}
    {ending : Except Failure Unit} {output : List UInt8} (texts : List String)
    (hlines : Writes (converse mode lines) ending output) :
    Writes (converse mode (texts.map Text.bytes ++ lines)) ending
      (texts.flatMap (exchange mode) ++ output) := by
  induction texts with
  | nil => exact hlines
  | cons text texts ih =>
      rw [List.map_cons, List.cons_append, List.flatMap_cons, List.append_assoc]
      exact writes_converse_text text ih

theorem transcript_of_writes {mode : Mode} {input : List UInt8} {lines : List (List UInt8)}
    {ending : Except Failure Unit} {output : List UInt8} (hsplits : Text.Splits input lines)
    (hwrites : Writes (converse mode lines) ending output) :
    transcript mode input none = ⟨ending, output⟩ := by
  rw [transcript, ← hsplits.eq_lines, hwrites]
  simp

theorem execute_script_of_ok (surroundings : Command.Surroundings) {text : String}
    {value : Option Value} (hrun : run text = .ok value) :
    Command.execute surroundings (.script text) = ⟨0, Text.bytes (reply .eval text), ""⟩ := by
  cases value with
  | none => simp [Command.execute, Command.runScript, reply, hrun, Text.bytes_empty]
  | some value => simp [Command.execute, Command.runScript, reply, hrun]

theorem execute_script_of_error (surroundings : Command.Surroundings) {text : String}
    {faults : List Fault} (hrun : run text = .error faults) :
    Command.execute surroundings (.script text) =
      ⟨1, [], String.join (faults.map fun fault => fault.message ++ "\n")⟩ := by
  rw [← Fault.report_append_newline (ne_nil_of_run_eq_error hrun)]
  simp [Command.execute, Command.runScript, hrun]

/-- A session on lines that are text is the exchanges on them and a last prompt, and every
token shown has the line number one.  A line that is not text ends the session with a
failure behind its prompt, whatever follows.  A script prints the value that a session
prints for the same text, or the messages of the same faults. -/
theorem transcript_per_line (mode : Mode) (input : List UInt8) :
    (∀ lines, Text.Splits input lines ↔ lines = Text.lines input) ∧
    (∀ texts : List String, Text.Splits input (texts.map Text.bytes) →
      transcript mode input none =
        ⟨.ok (), texts.flatMap (exchange mode) ++ Text.bytes prompt⟩ ∧
      ∀ text ∈ texts, ∀ token ∈ (Source.ofString text).tokens, token.line = 1) ∧
    (∀ (texts : List String) bad later, Text.Splits input (texts.map Text.bytes ++ bad :: later) →
      (∀ text, Text.bytes text ≠ bad) →
      transcript mode input none =
        ⟨.error .malformedLine, texts.flatMap (exchange mode) ++ Text.bytes prompt⟩) ∧
    ∀ surroundings text,
      let report := Command.execute surroundings (.script text)
      (∀ value, run text = .ok value → report = ⟨0, Text.bytes (reply .eval text), ""⟩) ∧
      ∀ faults, run text = .error faults →
        report = ⟨1, [], String.join (faults.map fun fault => fault.message ++ "\n")⟩ := by
  refine ⟨fun lines => Text.splits_iff, ?_, ?_, ?_⟩
  · intro texts hsplits
    constructor
    · have hlast : Writes (converse mode []) (.ok ()) (Text.bytes prompt) := writes_write prompt
      have hwrites := writes_converse_append texts hlast
      rw [List.append_nil] at hwrites
      exact transcript_of_writes hsplits hwrites
    · intro text hmem token
      apply Source.line_of_mem_tokens
      apply Text.newline_notMem_of_lineFeed_notMem
      exact hsplits.lineFeed_notMem _ (List.mem_map_of_mem hmem)
  · intro texts bad later hsplits hbad
    apply transcript_of_writes hsplits
    exact writes_converse_append texts (writes_converse_malformed mode hbad later)
  · intro surroundings text
    constructor
    · intro value hrun
      exact execute_script_of_ok surroundings hrun
    · intro faults hrun
      exact execute_script_of_error surroundings hrun

theorem transcript_of_malformed_third_line :
    transcript .eval (Text.bytes "5\r\nlet x 5;\n" ++ [255, 10, 53]) none =
      ⟨.error .malformedLine, Text.bytes (">> 5\n>> parser errors:\n" ++
        "\tError on line 1: expected next token to be =, got INT instead\n>> ")⟩ := by
  have hsplits : Text.Splits (Text.bytes "5\r\nlet x 5;\n" ++ [255, 10, 53])
      (["5", "let x 5;"].map Text.bytes ++ [255] :: [[53]]) := by
    rw [Text.splits_iff]
    decide +kernel
  have hbad : ∀ text, Text.bytes text ≠ [255] := by
    rw [← Text.ofBytes?_eq_none_iff]
    decide +kernel
  have houtput : ["5", "let x 5;"].flatMap (exchange .eval) ++ Text.bytes prompt =
      Text.bytes (">> 5\n>> parser errors:\n" ++
        "\tError on line 1: expected next token to be =, got INT instead\n>> ") := by
    decide +kernel
  rw [← houtput]
  exact (transcript_per_line .eval _).2.2.1 _ _ _ hsplits hbad

end Session

end Scriptlet
