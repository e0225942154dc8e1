-- SUMMARY: Parsers as functions from cursors to outcomes, and the primitive ones.
import Descent.Engine.Eval

/-! # Parsers

A parser is a named function from a cursor to a computation of an outcome. The
combinators of the following modules make parsers from parsers, whatever these
are; nothing is assumed of a parser that an author wrote.

A primitive parser looks whether enough characters remain before it compares
them, so an input that is too short is reported as such and not as a mismatch. -/

namespace Descent

/-- A parsing function and its name. -/
structure Parser where
  name : String
  fn : Cursor → Eval Outcome

namespace Parser

/-- A parser under another name. -/
def named (name : String) (p : Parser) : Parser := { p with name := name }

/-- A parser that needs no computation besides its function. -/
def ofFn (name : String) (fn : Cursor → Outcome) : Parser where
  name := name
  fn := fun c => pure (fn c)

end Parser

namespace Outcome

/-- A failure at a cursor that a diagnostic of the catalogue describes. -/
def failAt (c : Cursor) (kind : FailureKind) (d : Diagnostic) : Outcome :=
  .failure (.ofDiagnostic kind c.pos d)

end Outcome

/-! ## Predicates -/

namespace Predicate

/-- Counts one more call under a key and tells how many there are now. -/
def countCall (key : Nat) : List (Nat × Nat) → Nat × List (Nat × Nat)
  | [] => (1, [(key, 1)])
  | (k, n) :: rest =>
    if k = key then (n + 1, (k, n + 1) :: rest)
    else
      let (m, rest') := countCall key rest
      (m, (k, n) :: rest')

/-- What the trigger of a predicate does when the predicate is called. -/
def pull (t : Trigger) : Eval Unit := do
  let (n, calls) := countCall t.counter (← Eval.get).calls
  Eval.modify fun s => { s with calls := calls }
  if n = t.call then
    Eval.emit .cancel
    Eval.modify State.cancel

/-- A call of a predicate. -/
def apply (p : Predicate) (c : Char) : Eval Bool := do
  match p.trigger with
  | none => pure ()
  | some t => pull t
  Eval.ofExcept (p.test c)

end Predicate

namespace Parser

/-! ## Primitive parsers -/

/-- The character `ch`. -/
def char (ch : Char) : Parser :=
  ofFn (quoteChar ch) fun c =>
    match c.head? with
    | none => .failAt c .endOfInput (.endOfInput (quoteChar ch))
    | some found =>
      if found = ch then .success (.atom (String.singleton ch)) (c.advance 1)
      else .failAt c .unexpectedChar (.unexpectedChar (quoteChar ch) (String.singleton found))

/-- The text `s`. -/
def literal (s : String) : Parser :=
  ofFn (quote s) fun c =>
    if c.canRead s.length then
      let found := c.textAhead s.length
      if found = s then .success (.atom s) (c.advance s.length)
      else .failAt c .unexpectedLiteral (.unexpectedLiteral s found)
    else .failAt c .endOfInput (.endOfInput (quote s))

/-- One character that passes the test `p`. -/
def satisfy (description : String) (p : Predicate) : Parser where
  name := description
  fn := fun c =>
    match c.head? with
    | none => pure (.failAt c .endOfInput (.endOfInput description))
    | some found => do
      if ← p.apply found then
        return .success (.atom (String.singleton found)) (c.advance 1)
      else
        return .failAt c .unexpectedChar (.unexpectedChar description (String.singleton found))

/-- The failure of a source that goes on where it should have ended. -/
def trailing (c : Cursor) (found : Char) : Outcome :=
  .failAt c .expectedEndOfInput (.expectedEndOfInput (String.singleton found))

/-- The end of the input, with an empty text as value. -/
def eof : Parser :=
  ofFn "end of input" fun c =>
    match c.head? with
    | some found => trailing c found
    | none => .success (.atom "") c

/-- Whether a character counts as a blank. -/
def isBlank (ch : Char) : Bool := ch = ' ' || ch = '\t' || ch = '\n' || ch = '\r'

/-- The first cursor from here on that is not at a blank. -/
def skipBlanks (c : Cursor) : Cursor :=
  if h : c.pos < c.source.size then
    if isBlank c.source[c.pos] then
      skipBlanks { source := c.source, pos := c.pos + 1 }
    else c
  else c
termination_by c.source.size - c.pos

/-- The blanks ahead are passed over, and nothing else. -/
theorem skipBlanks_eq (c : Cursor) :
    skipBlanks c = c.advance (c.rest.takeWhile isBlank).length := by
  fun_induction skipBlanks c with
  | case1 c h hb ih =>
    have hnext := Cursor.rest_eq_cons h
    have hle := c.pos_le
    rw [ih, hnext, List.takeWhile_cons_of_pos hb, List.length_cons]
    ext1
    · rfl
    · simp only [Cursor.advance_pos, Cursor.rest]
      omega
  | case2 c h hb =>
    rw [Cursor.rest_eq_cons h, List.takeWhile_cons_of_neg hb, List.length_nil]
    exact c.advance_zero.symm
  | case3 c h =>
    have hrest : c.rest = [] := List.drop_eq_nil_of_le (by simpa using h)
    rw [hrest, List.takeWhile_nil, List.length_nil]
    exact c.advance_zero.symm

/-- Any number of blanks, with their text as value. -/
def spaces : Parser :=
  ofFn "whitespace" fun c =>
    let next := skipBlanks c
    .success (.atom (c.textUpTo next.pos)) next

end Parser

end Descent
