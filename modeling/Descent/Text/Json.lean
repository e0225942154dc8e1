-- SUMMARY: Records written as one line of JSON text.
import Descent.Text.Digits

/-! # JSON text

Tools read diagnostics as JSON objects. An object is a list of named fields,
written in the order given, with a blank after each comma and colon. In a text
only the double quote, the backslash and the control characters are escaped;
all other characters are written as they are. -/

namespace Descent.Json

/-- The content of a field. -/
inductive Field
  | text (s : String)
  | number (n : Int)
  | texts (ss : List String)
  deriving DecidableEq, Repr

/-- The fields of an object, in order. -/
abbrev Object := List (String × Field)

/-- One character inside a JSON string. -/
def escape (c : Char) : List Char :=
  if c = '"' ∨ c = '\\' then ['\\', c]
  else if c = '\n' then ['\\', 'n']
  else if c = '\r' then ['\\', 'r']
  else if c = '\t' then ['\\', 't']
  else if c = '\x08' then ['\\', 'b']
  else if c = '\x0c' then ['\\', 'f']
  else if c.toNat < 0x20 then '\\' :: 'u' :: Digits.fixed 16 4 c.toNat
  else [c]

/-- A text as a JSON string. -/
def string (s : String) : String :=
  String.ofList ('"' :: s.toList.flatMap escape ++ ['"'])

/-- The written form of a field's content. -/
def Field.render : Field → String
  | .text s => string s
  | .number n => decimalText n
  | .texts ss => "[" ++ ", ".intercalate (ss.map string) ++ "]"

/-- The written form of an object. -/
def render (o : Object) : String :=
  "\x7b" ++ ", ".intercalate (o.map fun f => string f.1 ++ ": " ++ f.2.render) ++ "\x7d"

end Descent.Json
