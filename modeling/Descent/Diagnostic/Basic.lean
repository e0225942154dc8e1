-- SUMMARY: Spans of a source and the record of one reportable problem.
import Descent.Diagnostic.Code

/-! # Diagnostics

A diagnostic says what is wrong, where, and what could be done about it. It
does not depend on how it is shown. -/

namespace Descent

/-- The characters from `start` up to `stop`, with the line and the column of
    the first of them. Offsets count from zero, lines and columns from one. -/
structure Span where
  start : Nat
  stop : Nat
  line : Nat
  column : Nat
  start_le_stop : start ≤ stop := by omega
  line_pos : 1 ≤ line := by omega
  column_pos : 1 ≤ column := by omega
  deriving DecidableEq, Repr

/-- Why four numbers are not a span. -/
inductive SpanError
  | negativeStart (start : Int)
  | reversed (start stop : Int)
  | line (given : Int)
  | column (given : Int)
  deriving DecidableEq, Repr

/-- The span with the given numbers. The first number that is wrong is named. -/
def Span.of? (start stop line column : Int) : Except SpanError Span :=
  if h₁ : start < 0 then .error (.negativeStart start)
  else if h₂ : stop < start then .error (.reversed start stop)
  else if h₃ : line < 1 then .error (.line line)
  else if h₄ : column < 1 then .error (.column column)
  else .ok {
    start := start.toNat
    stop := stop.toNat
    line := line.toNat
    column := column.toNat }

/-- One reportable problem. -/
structure Diagnostic where
  /-- The stable identifier. -/
  code : Code
  /-- What is wrong, in one sentence. -/
  message : String
  /-- Where in the input, if it has a place there. -/
  span : Option Span := none
  /-- What could be done about it. -/
  hint : Option String := none
  /-- What would have been accepted at the span. -/
  expected : List String := []
  /-- The rule of the grammar that is involved. -/
  ruleName : Option String := none
  /-- How grave it is; `"warning"` is set apart from all others. -/
  severity : String := "error"
  deriving DecidableEq, Repr

end Descent
