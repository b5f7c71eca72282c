import Mathlib
import Scriptlet.Fault
import Scriptlet.Proofs.Text.Quotation

/-!
# Reports lose nothing

Where a part of a message ends can be seen from the text: a number ends before a colon and
a label holds no space.  So a message belongs to one fault only, although some labels are
punctuation and a literal may imitate any message.  Quotes show the line feed of a literal
by a letter, so the line feeds of a report stand between its messages only.
-/

namespace Scriptlet

namespace Kind

def all : List Kind :=
  [eof, illegal, ident, int, assign, plus, minus, bang, star, slash, less, greater, equal,
   notEqual, comma, semicolon, lparen, rparen, lbrace, rbrace, fnWord, letWord, trueWord,
   falseWord, ifWord, elseWord, returnWord, newline, blank]

def ofLabel? (text : String) : Option Kind :=
  all.find? (·.label = text)

theorem ofLabel?_label (kind : Kind) : ofLabel? kind.label = some kind := by
  cases kind <;> rfl

theorem label_injective : Function.Injective label := by
  intro kind other heq
  have hfound := congrArg ofLabel? heq
  rw [ofLabel?_label, ofLabel?_label] at hfound
  exact Option.some.inj hfound

theorem notMem_label {c : Char} (hc : c ≤ ' ') (kind : Kind) : c ∉ kind.label.toList := by
  have hall : kind.label.toList.all (fun d => ' ' < d) = true := by cases kind <;> rfl
  intro hmem
  have hgraphic := of_decide_eq_true (List.all_eq_true.mp hall c hmem)
  exact absurd hgraphic (Char.not_lt.mpr hc)

end Kind

namespace Fault

theorem complaint_unexpected (expected found : Kind) (line : Nat) :
    (unexpected expected found line).complaint =
      "expected next token to be " ++ (expected.label ++ ", got " ++ found.label) ++ " instead" := by
  rw [← String.append_assoc, ← String.append_assoc]
  rfl

theorem complaint_noOperand (kind : Kind) (line : Nat) :
    (noOperand kind line).complaint = "no prefix parse function for " ++ kind.label ++ " found" :=
  rfl

theorem complaint_badInteger (literal : String) (line : Nat) :
    (badInteger literal line).complaint =
      "could not parse " ++ Text.quote literal ++ " as integer" :=
  rfl

def initial : Fault → Char
  | unexpected .. => 'e'
  | noOperand .. => 'n'
  | badInteger .. => 'c'

theorem head?_complaint (fault : Fault) : fault.complaint.toList.head? = some fault.initial := by
  cases fault with
  | unexpected =>
      rw [complaint_unexpected, String.append_assoc, String.toList_append]
      rfl
  | noOperand =>
      rw [complaint_noOperand, String.append_assoc, String.toList_append]
      rfl
  | badInteger =>
      rw [complaint_badInteger, String.append_assoc, String.toList_append]
      rfl

theorem kinds_eq_of_labels_eq {expected found wanted met : Kind}
    (heq : expected.label ++ ", got " ++ found.label = wanted.label ++ ", got " ++ met.label) :
    expected = wanted ∧ found = met := by
  -- A label may itself be the comma, so the gap begins behind the comma, at the space.
  have hgap : ∀ first second : String,
      first ++ ", got " ++ second = (first ++ ",") ++ (" got " ++ second) := by
    intro first second
    have hcomma : ", got " = "," ++ " got " := rfl
    rw [hcomma, String.append_assoc, String.append_assoc, String.append_assoc]
  have hspace : ∀ kind : Kind, ' ' ∉ (kind.label ++ ",").toList := by
    intro kind
    have hlabel := Kind.notMem_label (Char.le_refl ' ') kind
    simpa using hlabel
  rw [hgap, hgap] at heq
  obtain ⟨hfirst, hsecond⟩ := Text.append_gap_inj rfl (hspace expected) (hspace wanted) heq
  exact ⟨Kind.label_injective ((String.append_left_inj ",").mp hfirst),
    Kind.label_injective hsecond⟩

theorem eq_of_complaint_eq {fault other : Fault} (hline : fault.line = other.line)
    (heq : fault.complaint = other.complaint) : fault = other := by
  have hinitial : fault.initial = other.initial := by
    have hhead := congrArg (·.toList.head?) heq
    simp only [head?_complaint] at hhead
    exact Option.some.inj hhead
  cases fault with
  | unexpected expected found line =>
      cases other with
      | unexpected wanted met _ =>
          obtain rfl : line = _ := hline
          rw [complaint_unexpected, complaint_unexpected, String.append_left_inj,
            String.append_right_inj] at heq
          obtain ⟨rfl, rfl⟩ := kinds_eq_of_labels_eq heq
          rfl
      | noOperand => simp [initial] at hinitial
      | badInteger => simp [initial] at hinitial
  | noOperand kind line =>
      cases other with
      | unexpected => simp [initial] at hinitial
      | noOperand other _ =>
          obtain rfl : line = _ := hline
          rw [complaint_noOperand, complaint_noOperand, String.append_left_inj,
            String.append_right_inj] at heq
          rw [Kind.label_injective heq]
      | badInteger => simp [initial] at hinitial
  | badInteger literal line =>
      cases other with
      | unexpected => simp [initial] at hinitial
      | noOperand => simp [initial] at hinitial
      | badInteger other _ =>
          obtain rfl : line = _ := hline
          rw [complaint_badInteger, complaint_badInteger, String.append_assoc,
            String.append_assoc, String.append_right_inj] at heq
          rw [(Text.quote_append_inj heq).1]

theorem message_eq (fault : Fault) :
    fault.message = "Error on line " ++ (toString fault.line ++ (": " ++ fault.complaint)) := by
  rw [← String.append_assoc, ← String.append_assoc]
  rfl

theorem message_injective : Function.Injective message := by
  intro fault other heq
  have hcolon := Text.notMem_toString fun _ => Nat.digitChar_ne ':' (by decide)
  rw [message_eq, message_eq, String.append_right_inj] at heq
  obtain ⟨hnumber, hcomplaint⟩ :=
    Text.append_gap_inj rfl (hcolon fault.line) (hcolon other.line) heq
  rw [Nat.toString_eq_repr, Nat.toString_eq_repr] at hnumber
  exact eq_of_complaint_eq (Nat.repr_injective hnumber) hcomplaint

theorem newline_notMem_complaint (fault : Fault) : '\n' ∉ fault.complaint.toList := by
  have hlabel := Kind.notMem_label (by decide : '\n' ≤ ' ')
  cases fault with
  | unexpected => simp [complaint_unexpected, hlabel]
  | noOperand => simp [complaint_noOperand, hlabel]
  | badInteger => simp [complaint_badInteger, Text.newline_notMem_quote]

theorem newline_notMem_message (fault : Fault) : '\n' ∉ fault.message.toList := by
  have hnumber := Text.notMem_toString (fun _ => Nat.digitChar_ne '\n' (by decide)) fault.line
  rw [message_eq]
  simpa [newline_notMem_complaint] using hnumber

/-! ## Whole reports -/

theorem split_report {faults : List Fault} (hne : faults ≠ []) :
    ((report faults).split '\n').toList.map (·.copy) = faults.map message := by
  have hlines : ∀ text ∈ faults.map message, '\n' ∉ text.toList := by
    intro text hmem
    obtain ⟨fault, _, rfl⟩ := List.mem_map.mp hmem
    exact newline_notMem_message fault
  have hreport : report faults = (String.singleton '\n').intercalate (faults.map message) := rfl
  rw [hreport, String.toList_split_intercalate hlines, if_neg (mt List.map_eq_nil_iff.mp hne)]

theorem report_ne_empty {faults : List Fault} (hne : faults ≠ []) : report faults ≠ "" := by
  obtain ⟨fault, others, rfl⟩ := List.exists_cons_of_ne_nil hne
  rw [report, List.map_cons, message_eq, String.intercalate_cons_append]
  simp

theorem report_injective : Function.Injective report := by
  intro faults others heq
  by_cases hfaults : faults = []
  · subst hfaults
    by_contra hne
    exact report_ne_empty (Ne.symm hne) heq.symm
  · have hothers : others ≠ [] := by
      rintro rfl
      exact report_ne_empty hfaults heq
    apply List.map_injective_iff.mpr message_injective
    rw [← split_report hfaults, ← split_report hothers, heq]

/-- A report belongs to one list of faults only, and its lines are the messages of these faults. -/
theorem report_loses_nothing :
    Function.Injective report ∧
      ∀ faults, faults ≠ [] →
        ((report faults).split '\n').toList.map (·.copy) = faults.map message :=
  ⟨report_injective, fun _ hne => split_report hne⟩

/-- Three faults, the last of them about commas in a message that has one itself. -/
def imitated : List Fault :=
  [.badInteger "0" 1, .badInteger "0" 1, .unexpected .comma .comma 2]

/-- Two faults that would read like those three if the first literal stood in its message
as it is. -/
def imitation : List Fault :=
  [.badInteger "0\" as integer\nError on line 1: could not parse \"0" 1,
    .unexpected .comma .comma 2]

theorem report_imitation :
    report imitation ≠ report imitated ∧ imitation ≠ [] ∧
      ((report imitation).split '\n').toList.map (·.copy) =
        ["Error on line 1: could not parse \"0\\\" as integer\\n" ++
            "Error on line 1: could not parse \\\"0\" as integer",
          "Error on line 2: expected next token to be ,, got , instead"] := by
  have hne : imitation ≠ [] := by decide
  refine ⟨report_loses_nothing.1.ne (by decide), hne, ?_⟩
  rw [report_loses_nothing.2 imitation hne]
  decide +kernel

end Fault

end Scriptlet
