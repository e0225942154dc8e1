-- SUMMARY: The values that parsers produce, and the plain data behind them.
import Descent.Text.Quoted
import Descent.Text.Window

/-! # Values

A parser produces one of three shapes: the text it matched, an ordered list of
results of other parsers, or a payload that the author of the grammar made from
them. Payloads are plain data, as in a data format. -/

namespace Descent

/-- Plain data. -/
inductive Data
  | null
  | bool (b : Bool)
  | int (n : Int)
  | text (s : String)
  | array (items : List Data)
  | object (fields : List (String × Data))
  deriving Repr, Inhabited

/-- The result of a parser. -/
inductive Value
  /-- Text matched by a primitive parser. -/
  | atom (text : String)
  /-- Results of the parts of a sequence or a repetition. -/
  | list (items : List Value)
  /-- A payload made by the author of the grammar. -/
  | node (data : Data)
  deriving Repr, Inhabited

/-! ## Equality of data

Two data are the same when they have the same shape and the same parts; a
truth value is the same as the number zero or one, and the order of the fields
of an object does not matter. -/

namespace Data

/-- The number that a truth value or an integer stands for. -/
def number? : Data → Option Int
  | .bool b => some (if b then 1 else 0)
  | .int n => some n
  | _ => none

mutual
/-- Whether two data are the same. -/
def same : Data → Data → Bool
  | .array xs, .array ys => sameItems xs ys
  | .object fs, .object gs => fs.length == gs.length && sameFields fs gs
  | .text s, .text t => s == t
  | .null, .null => true
  | .bool a, d => d.number? == some (if a then 1 else 0)
  | .int a, d => d.number? == some a
  | _, _ => false

/-- Whether two lists of data are the same item by item. -/
def sameItems : List Data → List Data → Bool
  | [], [] => true
  | x :: xs, y :: ys => same x y && sameItems xs ys
  | _, _ => false

/-- Whether each field on the left has the same content on the right. -/
def sameFields : List (String × Data) → List (String × Data) → Bool
  | [], _ => true
  | (k, x) :: fs, gs =>
    (match gs.lookup k with
      | some y => same x y
      | none => false) && sameFields fs gs
end

end Data

namespace Value

/-- The name of the shape of a value. -/
def shape : Value → String
  | .atom _ => "atom"
  | .list _ => "list"
  | .node _ => "node"

mutual
/-- The text that a value was matched from: the texts of its atoms in order.
    A payload has no text. -/
def text : Value → String
  | .atom s => s
  | .list vs => String.join (texts vs)
  | .node _ => ""

/-- The text of each value of a list. -/
def texts : List Value → List String
  | [] => []
  | v :: vs => text v :: texts vs
end

mutual
/-- The plain data of a value: an atom is its text and a list an array. -/
def toData : Value → Data
  | .atom s => .text s
  | .list vs => .array (toDataAll vs)
  | .node d => d

/-- The plain data of each value of a list. -/
def toDataAll : List Value → List Data
  | [] => []
  | v :: vs => toData v :: toDataAll vs
end

/-- Whether a value counts as present in a condition: only the empty list does not. -/
def isPresent : Value → Bool
  | .list [] => false
  | _ => true

/-- The number of items of a list, and otherwise of characters of the text. -/
def size : Value → Nat
  | .list vs => vs.length
  | v => v.text.length

mutual
/-- Whether two values are the same. -/
def same : Value → Value → Bool
  | .atom s, .atom t => s == t
  | .list vs, .list ws => sameItems vs ws
  | .node d, .node e => d.same e
  | _, _ => false

/-- Whether two lists of values are the same item by item. -/
def sameItems : List Value → List Value → Bool
  | [], [] => true
  | v :: vs, w :: ws => same v w && sameItems vs ws
  | _, _ => false
end

end Value

/-! ## What an author's function hands back

A mapping function or the builder of a rule can hand back anything. What is
neither a value nor a parser is only ever named in messages, by its type and
its written form. -/

/-- Something that is not a parser, handed back by an author's function. -/
inductive Plain
  | none
  | bool (b : Bool)
  | int (n : Int)
  /-- A number with a fraction, known by its written form. -/
  | fraction (shown : String)
  | text (s : String)
  | emptyList
  | emptyMap
  | emptyTuple
  | atom (s : String)
  /-- The failure of a parse that the function ran. -/
  | failure
  deriving DecidableEq, Repr

namespace Plain

/-- The name of the type, for messages. -/
def typeName : Plain → String
  | .none => "NoneType"
  | .bool _ => "bool"
  | .int _ => "int"
  | .fraction _ => "float"
  | .text _ => "str"
  | .emptyList => "list"
  | .emptyMap => "dict"
  | .emptyTuple => "tuple"
  | .atom _ => "Atom"
  | .failure => "Failure"

/-- The written form, for log messages. -/
def shown : Plain → String
  | .none => "None"
  | .bool b => if b then "True" else "False"
  | .int n => decimalText n
  | .fraction s => s
  | .text s => quote s
  | .emptyList => "[]"
  | .emptyMap => "\x7b\x7d"
  | .emptyTuple => "()"
  | .atom s => "Atom(text=" ++ quote s ++ ")"
  | .failure => "Failure"

/-- The value among the three shapes that this is, if it is one. -/
def value? : Plain → Option Value
  | .atom s => some (.atom s)
  | _ => Option.none

end Plain

end Descent
