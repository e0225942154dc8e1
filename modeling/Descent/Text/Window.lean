-- SUMMARY: Signed offsets into a sequence, and the window of a text between two of them.

/-! # Windows

An author may name a place in a text by a signed offset. A nonnegative offset
counts from the front and a negative one from the end; an offset that falls
outside is moved to the nearest end. A window is what lies between two such
places, and it is empty when the second place is not after the first. -/

namespace Descent

/-- The place that the signed offset `i` names among `size` items. -/
def place (size : Nat) (i : Int) : Nat :=
  if i < 0 then (size + i).toNat else min i.toNat size

theorem place_le (size : Nat) (i : Int) : place size i ≤ size := by
  unfold place; split <;> omega

/-- A nonnegative offset inside the sequence names itself. -/
theorem place_of_le {size n : Nat} (h : n ≤ size) : place size n = n := by
  unfold place; split <;> omega

namespace Text

/-- The characters of `cs` from offset `i` up to offset `j`. -/
def window (cs : Array Char) (i j : Int) : String :=
  String.ofList (cs.extract (place cs.size i) (place cs.size j)).toList

/-- The characters of `s` before offset `n`. -/
def before (s : String) (n : Int) : String :=
  String.ofList (s.toList.take (place s.length n))

/-- `n` blanks. -/
def blanks (n : Nat) : String :=
  String.ofList (List.replicate n ' ')

end Text

/-! ## Items

Unlike the ends of a window, an item has to exist. Its offset is a signed word
of sixty-four bits. -/

/-- Why a list has no item at an offset. -/
inductive OffsetError
  /-- The offset falls outside the list. -/
  | outside
  /-- The offset is not a word. -/
  | notWord
  deriving DecidableEq, Repr

/-- Whether an offset is a signed word of sixty-four bits. -/
def isWord (i : Int) : Bool := -0x8000000000000000 ≤ i && i < 0x8000000000000000

/-- The item of `xs` at the signed offset `i`. -/
def itemAt {α : Type} (xs : List α) (i : Int) : Except OffsetError α :=
  if isWord i then
    let n := if i < 0 then xs.length + i else i
    if n < 0 then .error .outside
    else match xs[n.toNat]? with
      | some x => .ok x
      | none => .error .outside
  else .error .notWord

end Descent
