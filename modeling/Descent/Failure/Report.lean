-- SUMMARY: Failures shown against the source in which they happened.
import Descent.Diagnostic.Rendering
import Descent.Failure.Basic
import Descent.Source.Lines

/-! # Reports

A failure knows its offset only. Shown against its source it gets a line and a
column, an excerpt of the source and a caret under the offending character. An
offset past the end of the source is taken to be its end, and a negative one is
refused. -/

namespace Descent

namespace Failure

/-- The position, moved to the end of the source if it lies past it. -/
def clipped (f : Failure) (source : Source) : Int := min f.position source.size

/-- The line and the column of the failure. -/
def lineColumn (f : Failure) (source : Source) : Except CursorError (Nat × Nat) := do
  let c ← Cursor.at? source (f.clipped source)
  return c.lineColumn

/-- The message after the line and the column. -/
def headline (f : Failure) (place : Nat × Nat) : String :=
  decimalText place.1 ++ ":" ++ decimalText place.2 ++ ": " ++ f.message

/-- The failure on one line. -/
def onOneLine (f : Failure) (source : Source) : Except CursorError String := do
  let place ← f.lineColumn source
  return f.headline place

/-- The number of a shown line, in at least four columns, and a bar. -/
def numbered (number : Nat) : String :=
  let digits := decimalText number
  Text.blanks (4 - digits.length) ++ digits ++ " | "

/-- A caret below the given column of a line that stands after `margin`. -/
def caretLine (margin : String) (column : Nat) : String :=
  Text.blanks (margin.length - 2) ++ "| " ++ Text.blanks (column - 1) ++ "^"

/-- The shown lines with numbers from `first` on, with a caret after the line of
    the failure. -/
def contextLines (place : Nat × Nat) (first : Nat) : List String → List String
  | [] => []
  | text :: rest =>
    let margin := numbered first
    let shown := margin ++ text
    if first = place.1 then
      shown :: caretLine margin place.2 :: contextLines place (first + 1) rest
    else
      shown :: contextLines place (first + 1) rest

/-- The failure on one line, a blank line, and the lines of the source up to
    `context` lines away from it, with a caret. -/
def inContext (f : Failure) (source : Source) (context : Int := 2) :
    Except CursorError String := do
  let place ← f.lineColumn source
  let lines := source.lines
  let first : Int := max 1 (place.1 - context)
  let last : Int := min lines.length (place.1 + context)
  let shown := (lines.drop (first - 1).toNat).take (last + 1 - first).toNat
  return "\n".intercalate (f.headline place :: "" :: contextLines place first.toNat shown)

/-- What could be done about a failure of a composite parser. -/
def hint (f : Failure) : Option String :=
  match f.kind with
  | .sequenceElementFailed => some (Diagnostic.sequenceElementHint f.index)
  | .allAlternativesFailed => some (Diagnostic.alternativesHint f.causes.length)
  | _ => none

/-- The diagnostic of a failure, with a span of the character at its position. -/
def toDiagnostic (f : Failure) (source : Source) (rule : Option String := none) :
    Except SpanError Diagnostic := do
  let pos := f.clipped source
  let place := (LineTable.ofSource source).lineColumn pos
  let span ← Span.of? pos (min (pos + 1) source.size) place.1 place.2
  return {
    code := .parse f.kind
    message := f.message
    span := some span
    hint := f.hint
    expected := f.expected
    ruleName := rule }

end Failure

namespace Formatter

/-- The line of a span, below a bar and above a caret. -/
def excerpt (s : Span) (source : Source) : List String :=
  let digits := decimalText s.line
  let margin := Text.blanks (digits.length + 2)
  [margin ++ "|",
   " " ++ digits ++ " | " ++ source.line s.line,
   margin ++ "| " ++ Text.blanks (s.column - 1) ++ "^"]

/-- The excerpt of a diagnostic, if it has a place. -/
def excerptOf (d : Diagnostic) (source : Source) : List String :=
  match d.span with
  | some s => excerpt s source
  | none => []

/-- The fields of a failure: those of its diagnostic and the number of causes. -/
def failureFields (f : Formatter) (failure : Failure) (d : Diagnostic) : Json.Object :=
  f.fields d ++
    (if failure.causes.isEmpty then [] else [("causes", .number failure.causes.length)])

/-- A failure in the style of the formatter. -/
def renderFailure (f : Formatter) (failure : Failure) (source : Source)
    (rule : Option String := none) : Except SpanError String := do
  let d ← failure.toDiagnostic source rule
  return match f.style with
    | .compiler => "\n".intercalate (f.compilerLines d (excerptOf d source))
    | .simple => f.simpleLine d
    | .json => Json.render (f.failureFields failure d)

end Formatter

end Descent
