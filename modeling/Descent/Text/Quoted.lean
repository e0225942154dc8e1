-- SUMMARY: Quoting of texts in messages, so that every character of the result is printable.
import Descent.Text.Digits
import Descent.Text.Printable

/-! # Quoted texts

Messages show characters and texts of the input between quotation marks. The
mark is the apostrophe, unless the text has an apostrophe and no double quote.
The mark in use and the backslash are escaped by a backslash, line feed,
carriage return and tab have short escapes, and every other character that is
not printable is written by the digits of its code point. -/

namespace Descent.Quoted

/-- The mark around a text. -/
def mark (cs : List Char) : Char :=
  if '\'' ∈ cs ∧ '"' ∉ cs then '"' else '\''

/-- A code point as an escape with the fewest digits that its size allows. -/
def numeric (n : Nat) : List Char :=
  if n < 0x100 then '\\' :: 'x' :: Digits.fixed 16 2 n
  else if n < 0x10000 then '\\' :: 'u' :: Digits.fixed 16 4 n
  else '\\' :: 'U' :: Digits.fixed 16 8 n

/-- One character between the marks `q`. -/
def escape (q c : Char) : List Char :=
  if c = q ∨ c = '\\' then ['\\', c]
  else if c = '\n' then ['\\', 'n']
  else if c = '\r' then ['\\', 'r']
  else if c = '\t' then ['\\', 't']
  else if isPrintable c then [c]
  else numeric c.toNat

/-- The characters of a quoted text. -/
def chars (cs : List Char) : List Char :=
  mark cs :: cs.flatMap (escape (mark cs)) ++ [mark cs]

end Descent.Quoted

namespace Descent

/-- A text as messages show it. -/
def quote (s : String) : String :=
  String.ofList (Quoted.chars s.toList)

/-- A single character as messages show it. -/
def quoteChar (c : Char) : String :=
  String.ofList (Quoted.chars [c])

end Descent
