-- SUMMARY: Positions in a source text, and what can be read and reached from them.
import Descent.Text.Window

/-! # Cursors

A parser looks at a source through a cursor: the source together with a
position between its start and its end. Reading never moves a cursor, and
moving makes a new one, so to go back is to keep the old cursor. Positions count
characters. -/

namespace Descent

/-- A text that parsers read, with constant-time access to its characters. -/
abbrev Source := Array Char

/-- The source with the characters of `s`. -/
def Source.ofString (s : String) : Source := s.toList.toArray

/-- The text of a source. -/
def Source.text (s : Source) : String := String.ofList s.toList

/-- Why a cursor cannot be made or read. -/
inductive CursorError
  /-- The position does not lie in a source of the given size. -/
  | outside (pos : Int) (size : Nat)
  /-- Fewer characters than requested remain after the position. -/
  | exhausted (pos : Nat) (requested : Int)
  deriving DecidableEq, Repr

/-- A position in a source. The end of the source is a position too. -/
@[ext] structure Cursor where
  source : Source
  pos : Nat
  pos_le : pos ≤ source.size := by omega
  deriving DecidableEq

namespace Cursor

/-- The cursor at the start of a source. -/
def start (source : Source) : Cursor where
  source := source
  pos := 0
  pos_le := Nat.zero_le _

/-- The cursor at a position that may not exist. -/
def at? (source : Source) (pos : Int) : Except CursorError Cursor :=
  if h : 0 ≤ pos ∧ pos ≤ source.size then
    .ok { source := source, pos := pos.toNat }
  else
    .error (.outside pos source.size)

/-- Whether the source ends here. -/
def atEnd (c : Cursor) : Bool := c.source.size ≤ c.pos

/-- The number of characters from here to the end. -/
def remaining (c : Cursor) : Nat := c.source.size - c.pos

/-- Whether `n` characters can be read from here. A negative `n` asks for
    nothing, and so does every `n` that ends before the source does. -/
def canRead (c : Cursor) (n : Int) : Bool := c.pos + n ≤ c.source.size

/-- The character here, if the source has not ended. -/
def head? (c : Cursor) : Option Char := c.source[c.pos]?

/-- The character here. -/
def peek (c : Cursor) : Except CursorError Char :=
  match c.head? with
  | some ch => .ok ch
  | none => .error (.exhausted c.pos 1)

/-- The text between here and the signed offset `stop`. -/
def textUpTo (c : Cursor) (stop : Int) : String := Text.window c.source c.pos stop

/-- The text of up to `n` characters from here. -/
def textAhead (c : Cursor) (n : Int) : String := c.textUpTo (c.pos + n)

/-- The text of the next `n` characters, all of which have to exist. -/
def readAhead (c : Cursor) (n : Int) : Except CursorError String :=
  if c.canRead n then .ok (c.textAhead n) else .error (.exhausted c.pos n)

/-- The cursor `n` characters further on. It stops at the end of the source and
    never moves back. -/
def advance (c : Cursor) (n : Int) : Cursor where
  source := c.source
  pos := min (c.pos + n.toNat) c.source.size
  pos_le := Nat.min_le_right _ _

/-- The line and the column of the position, both counted from one. A line ends
    at a line feed and nowhere else. -/
def lineColumn (c : Cursor) : Nat × Nat :=
  let before := (c.source.extract 0 c.pos).toList
  (before.count '\n' + 1, (before.reverse.takeWhile (· != '\n')).length + 1)

/-! ## Moving -/

@[simp] theorem advance_source (c : Cursor) (n : Int) : (c.advance n).source = c.source := rfl

@[simp] theorem advance_pos (c : Cursor) (n : Int) :
    (c.advance n).pos = min (c.pos + n.toNat) c.source.size := rfl

theorem pos_le_advance (c : Cursor) (n : Int) : c.pos ≤ (c.advance n).pos := by
  have := c.pos_le
  simp only [advance_pos]; omega

theorem advance_zero (c : Cursor) : c.advance 0 = c := by
  ext1
  · rfl
  · exact Nat.min_eq_left c.pos_le

/-- Two moves ahead are one. -/
theorem advance_advance (c : Cursor) {n m : Int} (hn : 0 ≤ n) (hm : 0 ≤ m) :
    (c.advance n).advance m = c.advance (n + m) := by
  ext1
  · rfl
  · simp only [advance_pos, advance_source]
    omega

@[simp] theorem start_pos (s : Source) : (start s).pos = 0 := rfl

@[simp] theorem start_source (s : Source) : (start s).source = s := rfl

theorem atEnd_iff (c : Cursor) : c.atEnd = true ↔ c.pos = c.source.size := by
  have := c.pos_le
  simp only [atEnd, decide_eq_true_eq]; omega

/-- The source has ended exactly where no character can be read. -/
theorem head?_eq_none_iff (c : Cursor) : c.head? = none ↔ c.atEnd = true := by
  simp [head?, atEnd]

/-! ## What is left to read

The characters from a cursor to the end of its source say what every operation
on the cursor does: reading looks at their front, and moving drops some. -/

/-- The characters from here to the end. -/
def rest (c : Cursor) : List Char := c.source.toList.drop c.pos

@[simp] theorem length_rest (c : Cursor) : c.rest.length = c.remaining := by
  simp [rest, remaining]

@[simp] theorem rest_start (s : Source) : (start s).rest = s.toList := rfl

theorem rest_eq_cons {c : Cursor} (h : c.pos < c.source.size) :
    c.rest = c.source[c.pos] :: c.source.toList.drop (c.pos + 1) := by
  unfold rest
  rw [List.drop_eq_getElem_cons (by simpa using h)]
  rfl

theorem head?_eq (c : Cursor) : c.head? = c.rest.head? := by
  simp [head?, rest]

theorem rest_advance (c : Cursor) (n : Int) : (c.advance n).rest = c.rest.drop n.toNat := by
  simp only [rest, advance_source, advance_pos, List.drop_drop]
  by_cases h : c.pos + n.toNat ≤ c.source.size
  · rw [Nat.min_eq_left h]
  · rw [Nat.min_eq_right (by omega), List.drop_eq_nil_of_le (by simp),
      List.drop_eq_nil_of_le (by simp; omega)]

theorem canRead_iff (c : Cursor) (n : Int) :
    c.canRead n = true ↔ n ≤ c.rest.length := by
  have := c.pos_le
  simp only [canRead, decide_eq_true_eq, length_rest, remaining]; omega

theorem atEnd_iff_rest (c : Cursor) : c.atEnd = true ↔ c.rest = [] := by
  rw [← head?_eq_none_iff, head?_eq, List.head?_eq_none_iff]

/-- A text ahead of the cursor is the front of what is left. -/
theorem textAhead_eq (c : Cursor) (n : Nat) :
    c.textAhead n = String.ofList (c.rest.take n) := by
  have hle := c.pos_le
  have hstart : place c.source.size (c.pos : Int) = c.pos := place_of_le hle
  have hstop : place c.source.size (c.pos + n : Int) = min (c.pos + n) c.source.size := by
    unfold place; split <;> omega
  simp only [textAhead, textUpTo, Text.window, hstart, hstop, rest]
  rw [Array.toList_extract, List.extract_eq_take_drop]
  congr 1
  by_cases h : c.pos + n ≤ c.source.size
  · rw [Nat.min_eq_left h, Nat.add_sub_cancel_left]
  · rw [Nat.min_eq_right (by omega), List.take_of_length_le (by simp),
      List.take_of_length_le (by simp; omega)]

end Cursor

end Descent
