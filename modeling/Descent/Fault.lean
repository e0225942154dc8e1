-- SUMMARY: Everything that ends an evaluation without an outcome, and how it is reported.
import Descent.Failure.Basic
import Descent.Source.Cursor

/-! # Faults

A failure is an ordinary answer of a parser. A fault is not: it stops the
evaluation. Faults are causes of the domain; the class, the message and the
attributes under which a caller sees a fault are computed from it by
`Fault.report`. -/

namespace Descent

/-! ## Classes of errors -/

/-- The class under which a caller sees a fault. -/
inductive ErrorClass
  /-- The common class of the library's own errors. -/
  | library
  | grammarDefinition
  | parseFailed
  | parseAborted
  | deadlineExceeded
  | parseCancelled
  | depthLimitExceeded
  | endOfInput
  | timeout
  | endOfFile
  | invalidValue
  | missingKey
  | runtime
  | wrongType
  | badIndex
  | zeroDivision
  | overflow
  | recursion
  deriving DecidableEq, Repr

namespace ErrorClass

/-- The name of a class. -/
def name : ErrorClass → String
  | .library => "CombiparseError"
  | .grammarDefinition => "GrammarDefinitionError"
  | .parseFailed => "ParseFailedError"
  | .parseAborted => "ParseAbortedError"
  | .deadlineExceeded => "DeadlineExceededError"
  | .parseCancelled => "ParseCancelledError"
  | .depthLimitExceeded => "DepthLimitExceededError"
  | .endOfInput => "EndOfInputError"
  | .timeout => "TimeoutError"
  | .endOfFile => "EOFError"
  | .invalidValue => "ValueError"
  | .missingKey => "KeyError"
  | .runtime => "RuntimeError"
  | .wrongType => "TypeError"
  | .badIndex => "IndexError"
  | .zeroDivision => "ZeroDivisionError"
  | .overflow => "OverflowError"
  | .recursion => "RecursionError"

/-- The classes that a class belongs to, itself included, in the order of
    their names. -/
def lineage : ErrorClass → List ErrorClass
  | .grammarDefinition => [.library, .grammarDefinition]
  | .parseFailed => [.library, .parseFailed]
  | .parseAborted => [.library, .parseAborted]
  | .deadlineExceeded => [.library, .deadlineExceeded, .parseAborted, .timeout]
  | .parseCancelled => [.library, .parseAborted, .parseCancelled]
  | .depthLimitExceeded => [.library, .depthLimitExceeded, .parseAborted]
  | .endOfInput => [.endOfFile, .endOfInput]
  | c => [c]

/-- Whether an error of the class carries a diagnostic. -/
def isLibrary (c : ErrorClass) : Bool := c.lineage.contains .library

/-- The message of an error of the class that was made with the given text. -/
def message (c : ErrorClass) (text : String) : String :=
  match c with
  | .missingKey => quote text
  | _ => text

end ErrorClass

/-! ## Faults -/

/-- Why a parser cannot be made from what its author gave. -/
inductive DefinitionError
  | notSingleChar (given : String)
  | emptyLiteral
  | noAlternatives
  | noElements
  deriving DecidableEq, Repr

/-- Why an evaluation ends without an outcome. -/
inductive Fault
  /-- A cursor could not be made or read. -/
  | cursor (e : CursorError)
  /-- Four numbers are not a span. -/
  | span (e : SpanError)
  /-- A parser could not be made. -/
  | definition (e : DefinitionError)
  /-- The source has more characters than the run allows. -/
  | sourceTooLarge (size : Nat) (limit : Int)
  /-- The run was cancelled. -/
  | cancelled (position : Int)
  /-- The time of the run was over. -/
  | deadline (timeout : Seconds) (position : Int)
  /-- A timeout is a whole number that is too large for a length of time. -/
  | timeoutTooLarge
  /-- The run nested rules too deeply. -/
  | depth (limit : Int) (rule : String) (position : Int)
  /-- A rule of the grammar cannot be built; an error of its builder is the cause. -/
  | grammar (d : Diagnostic) (cause : Option Fault)
  /-- The mapping function of a parser handed back something that is not a value. -/
  | mapping (parser : String) (result : Plain)
  /-- A choice failed without the failure of any branch. -/
  | noBranch
  /-- A list has no item at an offset. -/
  | item (e : OffsetError)
  /-- A value that is not a list was asked for an item. -/
  | notList (shape : String)
  /-- A text is not the decimal form of an integer. -/
  | notInteger (text : String)
  /-- A text has more digits than are read as an integer. -/
  | integerTooLong (digits : Nat)
  /-- An author's function raised an error. -/
  | authored (errorClass : ErrorClass) (text : String)
  /-- A run that has to succeed failed. -/
  | failed (d : Diagnostic) (failure : Failure) (source : String)
  /-- A nesting level is said to cost nothing, so no ceiling exists. -/
  | noFrames
  /-- More nested calls than the host's stack holds. -/
  | stackExhausted
  /-- No failure kind, code or style has the given name. -/
  | unknownKind (given : String)
  | unknownCode (given : String)
  | unknownStyle (given : String)
  deriving Repr

/-- A fault as a caller sees it. -/
structure ErrorReport where
  errorClass : ErrorClass
  message : String
  diagnostic : Option Diagnostic := none
  position : Option Int := none
  maxDepth : Option Int := none
  requested : Option Int := none
  failure : Option Failure := none
  source : Option String := none
  cause : Option ErrorReport := none

namespace DefinitionError

/-- The message of a definition error. -/
def message : DefinitionError → String
  | .notSingleChar given => "char() expects a single character, got " ++ quote given
  | .emptyLiteral => "literal() expects a non-empty string"
  | .noAlternatives => "choice() requires at least one parser"
  | .noElements => "seq() requires at least one parser"

end DefinitionError

namespace SpanError

/-- The message of a span error. -/
def message : SpanError → String
  | .negativeStart start => "SourceSpan.start must be >= 0, got " ++ decimalText start
  | .reversed start stop => "SourceSpan.end (" ++ decimalText stop ++ ") precedes start ("
      ++ decimalText start ++ ")"
  | .line given => "SourceSpan.line is 1-based, got " ++ decimalText given
  | .column given => "SourceSpan.column is 1-based, got " ++ decimalText given

end SpanError

namespace OffsetError

/-- The message of an offset error. -/
def message : OffsetError → String
  | .outside => "tuple index out of range"
  | .notWord => "cannot fit 'int' into an index-sized integer"

end OffsetError

namespace ErrorReport

/-- An error of the given class with the message of a diagnostic. -/
def ofDiagnostic (c : ErrorClass) (d : Diagnostic) : ErrorReport where
  errorClass := c
  message := d.message
  diagnostic := some d

/-- An error of the given class, made with a text. -/
def ofText (c : ErrorClass) (text : String) : ErrorReport where
  errorClass := c
  message := c.message text

end ErrorReport

namespace CursorError

/-- A cursor error as a caller sees it. -/
def report : CursorError → ErrorReport
  | .outside pos size =>
    .ofText .invalidValue ("Cursor position " ++ decimalText pos ++ " outside 0.."
      ++ decimalText size)
  | .exhausted pos requested =>
    { ErrorReport.ofText .endOfInput (Diagnostic.cursorExhausted pos requested).message with
      position := some pos
      requested := some requested }

end CursorError

namespace Fault

/-- A fault as a caller sees it. -/
def report : Fault → ErrorReport
  | .cursor e => e.report
  | .span e => .ofText .invalidValue e.message
  | .definition e => .ofText .invalidValue e.message
  | .sourceTooLarge size limit =>
    .ofText .invalidValue (Diagnostic.sourceTooLarge size limit).message
  | .cancelled position =>
    { ErrorReport.ofDiagnostic .parseCancelled (.parseCancelled position) with
      position := some position }
  | .deadline timeout position =>
    { ErrorReport.ofDiagnostic .deadlineExceeded (.deadlineExceeded timeout position) with
      position := some position }
  | .timeoutTooLarge => .ofText .overflow "int too large to convert to float"
  | .depth limit rule position =>
    { ErrorReport.ofDiagnostic .depthLimitExceeded (.nestingDepthExceeded limit rule position) with
      position := some position
      maxDepth := some limit }
  | .grammar d none => .ofDiagnostic .grammarDefinition d
  | .grammar d (some cause) =>
    { ErrorReport.ofDiagnostic .grammarDefinition d with cause := some cause.report }
  | .mapping parser result =>
    .ofText .wrongType (Diagnostic.mapResultInvalid parser result).message
  | .noBranch => .ofText .badIndex "list index out of range"
  | .item e => .ofText .badIndex e.message
  | .notList shape => .ofText .wrongType ("'" ++ shape ++ "' object is not subscriptable")
  | .notInteger text => .ofText .invalidValue ("not an integer: " ++ text)
  | .integerTooLong digits =>
    .ofText .invalidValue ("Exceeds the limit (4300 digits) for integer string conversion: value has "
      ++ decimalText digits ++ " digits; use sys.set_int_max_str_digits() to increase the limit")
  | .authored c text => .ofText c text
  | .failed d failure source =>
    { ErrorReport.ofDiagnostic .parseFailed d with
      failure := some failure
      source := some source }
  | .noFrames => .ofText .zeroDivision "integer division or modulo by zero"
  | .stackExhausted => .ofText .recursion "maximum recursion depth exceeded"
  | .unknownKind given => .ofText .invalidValue (quote given ++ " is not a valid FailureKind")
  | .unknownCode given => .ofText .missingKey given
  | .unknownStyle given => .ofText .invalidValue (quote given ++ " is not a valid OutputFormat")

/-- The class of a fault. -/
def errorClass (f : Fault) : ErrorClass := f.report.errorClass

/-- The message of a fault. -/
def message (f : Fault) : String := f.report.message

/-- Whether a fault says that the grammar is wrong. -/
def isGrammar (f : Fault) : Bool := f.errorClass.lineage.contains .grammarDefinition

end Fault

end Descent
