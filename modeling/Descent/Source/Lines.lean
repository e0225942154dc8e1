-- SUMMARY: The lines of a source, and a table of their starts for repeated look-ups.
import Descent.Source.Cursor

/-! # Lines

A line feed ends a line and belongs to none; a carriage return is a character
like any other. A source with `n` line feeds has `n + 1` lines, the last of
which may be empty. The table of line starts is made in one pass and answers
each look-up by binary search. -/

namespace Descent

namespace Source

/-- Puts a character in front of the lines that follow it. -/
def lineStep (c : Char) (lines : List (List Char)) : List (List Char) :=
  if c = '\n' then [] :: lines
  else match lines with
    | [] => [[c]]
    | line :: rest => (c :: line) :: rest

/-- The lines of a source, without their line feeds. -/
def lines (s : Source) : List String :=
  (s.foldr lineStep [[]]).map String.ofList

/-- The number of a line, counted from one, and its text. -/
def line (s : Source) (number : Nat) : String := s.lines.getD (number - 1) ""

end Source

/-- The positions at which the lines of a source start. -/
structure LineTable where
  starts : Array Nat
  size : Nat
  deriving DecidableEq, Repr

namespace LineTable

/-- Extends the starts with the position after a line feed at `i`. -/
def push (starts : Array Nat) (i : Nat) (c : Char) : Array Nat :=
  if c = '\n' then starts.push (i + 1) else starts

/-- The table of a source. -/
def ofSource (s : Source) : LineTable where
  starts := (s.foldl (fun (acc : Array Nat × Nat) c => (push acc.1 acc.2 c, acc.2 + 1)) (#[0], 0)).1
  size := s.size

/-- The first place from `lo` up to `hi` whose entry is above `x`, in a sorted
    table all of whose entries before `lo` are at most `x`, and all from `hi` on
    above it. -/
def search (xs : Array Nat) (x lo hi : Nat) : Nat :=
  if lo < hi then
    let mid := (lo + hi) / 2
    if xs.getD mid 0 ≤ x then search xs x (mid + 1) hi else search xs x lo mid
  else lo
termination_by hi - lo

/-- The line and the column of a position, both counted from one. A position
    outside the source is moved to its nearest end. -/
def lineColumn (t : LineTable) (pos : Int) : Nat × Nat :=
  let p := min pos.toNat t.size
  let line := search t.starts p 0 t.starts.size
  (line, p - t.starts.getD (line - 1) 0 + 1)

end LineTable

end Descent
