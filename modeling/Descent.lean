import Descent.Diagnostic.Basic
import Descent.Diagnostic.Catalogue
import Descent.Diagnostic.Code
import Descent.Diagnostic.Rendering
import Descent.Engine.Deadline
import Descent.Engine.Eval
import Descent.Engine.Guard
import Descent.Engine.Journal
import Descent.Engine.Rules
import Descent.Engine.Run
import Descent.Failure.Basic
import Descent.Failure.Report
import Descent.Fault
import Descent.Grammar.Basic
import Descent.Grammar.Document
import Descent.Grammar.Semantics
import Descent.Grammar.Stock
import Descent.Number.Seconds
import Descent.Number.Significant
import Descent.Parser.Basic
import Descent.Parser.Choice
import Descent.Parser.Repetition
import Descent.Parser.Sequence
import Descent.Proofs.Aborts
import Descent.Proofs.Accuracy
import Descent.Proofs.BigStep
import Descent.Proofs.Bounds
import Descent.Proofs.Brackets
import Descent.Proofs.Carets
import Descent.Proofs.CheckedReading
import Descent.Proofs.ChoiceReport
import Descent.Proofs.ChoiceTrees
import Descent.Proofs.Comparison
import Descent.Proofs.Completeness
import Descent.Proofs.DeepestLeaf
import Descent.Proofs.DepthLimit
import Descent.Proofs.Discipline
import Descent.Proofs.Expectation
import Descent.Proofs.FailureShape
import Descent.Proofs.Faults
import Descent.Proofs.Formation
import Descent.Proofs.Hints
import Descent.Proofs.Invariant
import Descent.Proofs.Isolation
import Descent.Proofs.JsonReports
import Descent.Proofs.JsonTexts
import Descent.Proofs.JsonTokens
import Descent.Proofs.Legible
import Descent.Proofs.Lifecycle
import Descent.Proofs.Likeness
import Descent.Proofs.Lines
import Descent.Proofs.Literals
import Descent.Proofs.Lockstep
import Descent.Proofs.LookAhead
import Descent.Proofs.MatchedText
import Descent.Proofs.Numerals
import Descent.Proofs.Outline
import Descent.Proofs.Parts
import Descent.Proofs.Peg
import Descent.Proofs.Places
import Descent.Proofs.Position
import Descent.Proofs.Reading
import Descent.Proofs.Recognition
import Descent.Proofs.Reporting
import Descent.Proofs.RoundTrip
import Descent.Proofs.Rounds
import Descent.Proofs.RunFaults
import Descent.Proofs.SeparatedLists
import Descent.Proofs.SequenceTrees
import Descent.Proofs.Sharing
import Descent.Proofs.Shift
import Descent.Proofs.Soundness
import Descent.Proofs.Termination
import Descent.Proofs.Watch
import Descent.Proofs.WholeSource
import Descent.Session
import Descent.Source.Cursor
import Descent.Source.Lines
import Descent.Text.Digits
import Descent.Text.Json
import Descent.Text.Printable
import Descent.Text.Quoted
import Descent.Text.Window
import Descent.Value
