import Scriptlet.Command
import Scriptlet.Main
import Scriptlet.Tree.Node
import Scriptlet.Proofs.Grammar.Derivation
import Scriptlet.Proofs.Grammar.Layers
import Scriptlet.Proofs.Parser.Outcome
import Scriptlet.Proofs.Parser.Induction
import Scriptlet.Proofs.Grammar.Soundness
import Scriptlet.Proofs.Grammar.Completeness
import Scriptlet.Proofs.Grammar.Exactness
import Scriptlet.Proofs.Parser.Lookahead
import Scriptlet.Proofs.Parser.ViablePrefix
import Scriptlet.Proofs.Parser.ReadAhead
import Scriptlet.Proofs.Parser.Composition
import Scriptlet.Proofs.Parser.Holes
import Scriptlet.Proofs.Grammar.Printing
import Scriptlet.Proofs.Source.Layout
import Scriptlet.Proofs.Text.Lines
import Scriptlet.Proofs.Session.Transcript
import Scriptlet.Proofs.Parser.Provenance
import Scriptlet.Proofs.Parser.Relabelling
import Scriptlet.Proofs.Source.Spelling
import Scriptlet.Proofs.Numeral.Range
import Scriptlet.Proofs.Run.Meaning
import Scriptlet.Proofs.Numeral.Grammar
import Scriptlet.Proofs.Numeral.Exactness
import Scriptlet.Proofs.Run.Rendering
import Scriptlet.Proofs.Run.Literals
import Scriptlet.Proofs.Parser.FaultOrder
import Scriptlet.Proofs.Parser.BraceMatching
import Scriptlet.Proofs.Parser.FaultCount
import Scriptlet.Proofs.Session.Truncation
import Scriptlet.Proofs.Text.Quotation
import Scriptlet.Proofs.Fault.Report
