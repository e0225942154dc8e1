-- SUMMARY: Parsers one after the other, brackets, blanks and mapped values.
import Descent.Parser.Basic

/-! # Sequences

The parsers of a sequence start where the one before them ended, and the first
that fails ends the sequence. -/

namespace Descent

namespace Failure

/-- The failure of a sequence whose element at `index` failed. -/
def ofElement (index : Nat) (f : Failure) : Failure where
  kind := .sequenceElementFailed
  position := f.position
  message := f.message
  expected := f.expected
  index := some index
  causes := [f]

end Failure

namespace Parser

/-- The elements of a sequence from the one at `index` on, after the values of
    the elements before it, the last of them first. -/
def seqFrom (index : Nat) (values : List Value) : List Parser → Cursor → Eval Outcome
  | [], c => pure (.success (.list values.reverse) c)
  | p :: ps, c => do
    match ← p.fn c with
    | .failure f => return .failure (f.ofElement index)
    | .success v n => seqFrom (index + 1) (v :: values) ps n

/-- Several parsers one after the other, with the list of their values. -/
def seq (first : Parser) (rest : List Parser) : Parser where
  name := "seq(" ++ ", ".intercalate ((first :: rest).map (·.name)) ++ ")"
  fn := seqFrom 0 [] (first :: rest)

/-- A parser between two others, whose values are dropped. The failure of the
    first that fails is the failure of the whole. -/
def between (opening content closing : Parser) : Parser where
  name := opening.name ++ " " ++ content.name ++ " " ++ closing.name
  fn := fun c => do
    match ← opening.fn c with
    | .failure f => return .failure f
    | .success _ n₁ => match ← content.fn n₁ with
      | .failure f => return .failure f
      | .success v n₂ => match ← closing.fn n₂ with
        | .failure f => return .failure f
        | .success _ n₃ => return .success v n₃

/-- A parser and the blanks after it, with the value of the parser. -/
def token (p : Parser) : Parser where
  name := p.name
  fn := fun c => do
    match ← p.fn c with
    | .failure f => return .failure f
    | .success v n => return .success v (skipBlanks n)

/-! ## Mapped values -/

/-- A parser whose value is replaced by what a computation makes of it. The
    cursor is left where the parser left it. -/
def mapWith (p : Parser) (f : Value → Eval Reply) : Parser where
  name := p.name
  fn := fun c => do
    match ← p.fn c with
    | .failure e => return .failure e
    | .success v n =>
      let reply ← f v
      let w ← Eval.ofExcept (reply.toValue p.name)
      return .success w n

/-- A parser whose value is replaced by what a function makes of it. -/
def map (p : Parser) (f : Value → Reply) : Parser := p.mapWith fun v => pure (f v)

/-- A parser that leaves a mark whenever it is tried. -/
def mark (label : String) (p : Parser) : Parser where
  name := p.name
  fn := fun c => do
    Eval.emit (.mark label c.pos)
    p.fn c

end Parser

end Descent
