-- SUMMARY: Ready-made predicates and mapping functions.
import Descent.Grammar.Basic

/-! # Stock functions

The predicates and mapping functions that grammars need most often. -/

namespace Descent

namespace Predicate

/-- A digit from zero to nine. -/
def digit : Predicate := .ofTest Char.isDigit

/-- A letter from `a` to `z` or from `A` to `Z`. -/
def letter : Predicate := .ofTest Char.isAlpha

/-- Every character. -/
def always : Predicate := .ofTest fun _ => true

/-- No character. -/
def never : Predicate := .ofTest fun _ => false

/-- A character that is not in the text. -/
def except (chars : String) : Predicate := .ofTest fun c => !chars.toList.contains c

/-- A character from `lo` to `hi`. The ends are texts, in the order of texts. -/
def range (lo hi : String) : Predicate :=
  .ofTest fun c => let s := String.singleton c; !(s < lo) && !(hi < s)

/-- Every character; the call with number `n` cancels. -/
def cancelAfter (counter n : Nat) : Predicate where
  test := fun _ => .ok true
  trigger := some ⟨counter, n⟩

end Predicate

namespace Mapping

/-- The matched text as one atom. -/
def joined (v : Value) : Reply := .value (.atom v.text)

/-- The largest number of digits that are read as an integer. -/
def maxDigits : Nat := 4300

/-- The integer of decimal digits after an optional minus sign. -/
def readInt (s : String) : Except Fault Int :=
  let (negative, digits) := match s.toList with
    | '-' :: ds => (true, ds)
    | ds => (false, ds)
  if digits.isEmpty ∨ !digits.all Char.isDigit then .error (.notInteger s)
  else if maxDigits < digits.length then .error (.integerTooLong digits.length)
  else
    let n : Nat := digits.foldl (fun n d => 10 * n + (d.toNat - '0'.toNat)) 0
    .ok (if negative then -n else n)

/-- The integer that the matched text writes. -/
def int (v : Value) : Reply :=
  match readInt v.text with
  | .ok n => .value (.node (.int n))
  | .error f => .fault f

/-- The matched text with its letters from `a` to `z` in upper case. -/
def upper (v : Value) : Reply := .value (.atom (String.ofList (v.text.toList.map Char.toUpper)))

/-- The number of items, or of characters. -/
def size (v : Value) : Reply := .value (.node (.int v.size))

/-- The plain data as a payload. -/
def data (v : Value) : Reply := .value (.node v.toData)

/-- The name of the shape. -/
def shape (v : Value) : Reply := .value (.atom v.shape)

/-- The item at a signed offset. -/
def index (i : Int) (v : Value) : Reply :=
  match v with
  | .list vs => match itemAt vs i with
    | .ok w => .value w
    | .error e => .fault (.item e)
  | .atom _ => .fault (.notList "Atom")
  | .node _ => .fault (.notList "Node")

/-- Always the same payload. -/
def node (d : Data) (_ : Value) : Reply := .value (.node d)

/-- The value itself. -/
def same (v : Value) : Reply := .value v

/-- Something that may not be a value. -/
def plain (p : Plain) (_ : Value) : Reply := .plain p

/-- An error. -/
def raise (c : ErrorClass) (text : String) (_ : Value) : Reply := .fault (.authored c text)

end Mapping

end Descent
