-- SUMMARY: The primitive parsers look whether characters are left before they read them, so that no read leads past the end.
import Descent.Grammar.Semantics

/-! # Checked reading

To read a character where the source has ended is a fault, and so is to read more characters
than are left. No primitive parser runs into it. Here each of them is written down with the
look ahead that it takes and with a read that may be a fault, and this is the same parser:
`Grammar.denote_checked`. -/

namespace Descent

/-! ## Cursors -/

namespace Cursor

/-- What was seen to be ahead of a cursor can be read there, and every place that a cursor
    moves to exists. -/
theorem read_of_ahead (c : Cursor) :
    (∀ ch, c.head? = some ch → c.peek = .ok ch) ∧
    (∀ n, c.canRead n = true → c.readAhead n = .ok (c.textAhead n)) ∧
    ∀ n, Cursor.at? c.source (c.advance n).pos = .ok (c.advance n) := by
  refine ⟨fun ch h => ?_, fun n h => if_pos h, fun n => ?_⟩
  · unfold peek
    rw [h]
  · have hle := (c.advance n).pos_le
    exact dif_pos ⟨Int.natCast_nonneg _, Int.ofNat_le.2 hle⟩

theorem canRead_one (c : Cursor) : c.canRead 1 = !c.atEnd := by
  rw [Bool.eq_iff_iff]
  simp only [canRead, atEnd, decide_eq_true_eq, Bool.not_eq_true', decide_eq_false_iff_not]
  omega

section Inside

variable {c : Cursor} (h : c.pos < c.source.size)
include h

theorem not_atEnd : ¬ c.atEnd = true := fun hend => Nat.ne_of_lt h (c.atEnd_iff.1 hend)

theorem peek_of_lt : c.peek = .ok c.source[c.pos] :=
  c.read_of_ahead.1 _ (Array.getElem?_eq_getElem h)

theorem advance_one : c.advance 1 = ⟨c.source, c.pos + 1, h⟩ := by
  ext1
  · rfl
  · exact Nat.min_eq_left h

end Inside

end Cursor

/-- A read of a character or a text. What cannot be read is a fault. -/
def Eval.ofRead {α : Type} (x : Except CursorError α) : Eval α :=
  Eval.ofExcept (x.mapError .cursor)

theorem Eval.ofRead_ok {α β : Type} {x : Except CursorError α} {a : α} (h : x = .ok a)
    (f : α → Eval β) : Eval.ofRead x >>= f = f a := by
  subst h
  rfl

/-! ## Primitive parsers -/

namespace Parser.Checked

/-- Reads the character at the cursor, if there is one, and goes on with it. -/
def one (expected : String) (c : Cursor) (next : Char → Eval Outcome) : Eval Outcome := do
  if c.canRead 1 then
    let found ← Eval.ofRead c.peek
    next found
  else
    return .failAt c .endOfInput (.endOfInput expected)

/-- The character `ch`. -/
def char (ch : Char) : Parser where
  name := quoteChar ch
  fn := fun c => one (quoteChar ch) c fun found => do
    if found = ch then
      return .success (.atom (String.singleton ch)) (c.advance 1)
    else
      return .failAt c .unexpectedChar (.unexpectedChar (quoteChar ch) (String.singleton found))

/-- The text `s`. -/
def literal (s : String) : Parser where
  name := quote s
  fn := fun c => do
    if c.canRead s.length then
      let found ← Eval.ofRead (c.readAhead s.length)
      if found = s then
        return .success (.atom s) (c.advance s.length)
      else
        return .failAt c .unexpectedLiteral (.unexpectedLiteral s found)
    else
      return .failAt c .endOfInput (.endOfInput (quote s))

/-- One character that passes the test `p`. -/
def satisfy (description : String) (p : Predicate) : Parser where
  name := description
  fn := fun c => one description c fun found => do
    if ← p.apply found then
      return .success (.atom (String.singleton found)) (c.advance 1)
    else
      return .failAt c .unexpectedChar (.unexpectedChar description (String.singleton found))

/-- The end of the input. -/
def eof : Parser where
  name := "end of input"
  fn := fun c => do
    if c.atEnd then
      return .success (.atom "") c
    else
      let found ← Eval.ofRead c.peek
      return trailing c found

/-- The first cursor from here on that is not at a blank. -/
def skipBlanks (c : Cursor) : Eval Cursor := do
  if _ : c.atEnd then
    return c
  else
    let found ← Eval.ofRead c.peek
    if isBlank found then
      skipBlanks (c.advance 1)
    else
      return c
termination_by c.remaining
decreasing_by
  simp_all only [Cursor.atEnd, Cursor.remaining, Cursor.advance_source, Cursor.advance_pos,
    decide_eq_true_eq]
  omega

/-- Any number of blanks. -/
def spaces : Parser where
  name := "whitespace"
  fn := fun c => do
    let next ← skipBlanks c
    return .success (.atom (c.textUpTo next.pos)) next

section Reading

variable {c : Cursor}

theorem one_of_none (h : c.head? = none) (expected : String) (next : Char → Eval Outcome) :
    one expected c next = pure (.failAt c .endOfInput (.endOfInput expected)) := by
  have hread : c.canRead 1 = false := by
    rw [c.canRead_one, c.head?_eq_none_iff.1 h]
    rfl
  unfold one
  rw [hread, if_neg Bool.false_ne_true]

theorem one_of_some {found : Char} (h : c.head? = some found) (expected : String)
    (next : Char → Eval Outcome) : one expected c next = next found := by
  have hread : c.canRead 1 = true := by
    rw [c.canRead_one, Bool.not_eq_true', ← Bool.not_eq_true, ← c.head?_eq_none_iff, h]
    exact Option.some_ne_none found
  unfold one
  rw [if_pos hread]
  exact Eval.ofRead_ok (c.read_of_ahead.1 found h) next

/-- The blanks are passed over one by one, each of them read before. -/
theorem skipBlanks_eq (c : Cursor) : skipBlanks c = pure (Parser.skipBlanks c) := by
  fun_induction Parser.skipBlanks c with
  | case1 c h hblank ih =>
    rw [skipBlanks, dif_neg (Cursor.not_atEnd h), Eval.ofRead_ok (Cursor.peek_of_lt h),
      if_pos hblank, Cursor.advance_one h, ih]
  | case2 c h hblank =>
    rw [skipBlanks, dif_neg (Cursor.not_atEnd h), Eval.ofRead_ok (Cursor.peek_of_lt h),
      if_neg hblank]
  | case3 c h =>
    have hend : c.atEnd = true := decide_eq_true (Nat.not_lt.1 h)
    rw [skipBlanks, dif_pos hend]

end Reading

/-- A parser that only answers is one that needs no computation. -/
theorem mk_eq_ofFn {name : String} {fn : Cursor → Eval Outcome} {fn' : Cursor → Outcome}
    (h : ∀ c, fn c = pure (fn' c)) : Parser.mk name fn = .ofFn name fn' :=
  congrArg (Parser.mk name) (funext h)

theorem char_eq (ch : Char) : char ch = .char ch := by
  refine mk_eq_ofFn fun c => ?_
  cases h : c.head? with
  | none => exact one_of_none h _ _
  | some found =>
    rw [one_of_some h]
    dsimp only
    split <;> rfl

theorem literal_eq (s : String) : literal s = .literal s := by
  refine mk_eq_ofFn fun c => ?_
  cases h : c.canRead s.length with
  | false => rfl
  | true =>
    rw [if_pos rfl, if_pos rfl, Eval.ofRead_ok (c.read_of_ahead.2.1 _ h)]
    dsimp only
    split <;> rfl

theorem satisfy_eq (description : String) (p : Predicate) :
    satisfy description p = .satisfy description p := by
  refine congrArg (Parser.mk description) (funext fun c => ?_)
  cases h : c.head? with
  | none => exact one_of_none h _ _
  | some found => exact one_of_some h _ _

theorem eof_eq : eof = .eof := by
  refine mk_eq_ofFn fun c => ?_
  cases h : c.head? with
  | none => rw [if_pos (c.head?_eq_none_iff.1 h)]
  | some found =>
    have hend : ¬ c.atEnd = true := by
      rw [← c.head?_eq_none_iff, h]
      exact Option.some_ne_none found
    rw [if_neg hend, Eval.ofRead_ok (c.read_of_ahead.1 found h)]

theorem spaces_eq : spaces = .spaces := by
  refine mk_eq_ofFn fun c => ?_
  rw [skipBlanks_eq]
  rfl

end Parser.Checked

/-! ## Grammars -/

/-- The parser of a primitive grammar, with a look ahead before each read. -/
def Grammar.checked? : Grammar → Option Parser
  | .char ch => some (Parser.Checked.char ch)
  | .literal s => some (Parser.Checked.literal s)
  | .satisfy description p => some (Parser.Checked.satisfy description p)
  | .eof => some Parser.Checked.eof
  | .spaces => some Parser.Checked.spaces
  | _ => none

/-- A primitive grammar stands for the parser that looks before it reads. -/
theorem Grammar.denote_checked (g : Grammar) {p : Parser} (h : g.checked? = some p)
    (links : Links) : g.denote links = p := by
  cases g with
  | char ch => exact (Parser.Checked.char_eq ch).symm.trans (Option.some.inj h)
  | literal s => exact (Parser.Checked.literal_eq s).symm.trans (Option.some.inj h)
  | satisfy description p =>
    exact (Parser.Checked.satisfy_eq description p).symm.trans (Option.some.inj h)
  | eof => exact Parser.Checked.eof_eq.symm.trans (Option.some.inj h)
  | spaces => exact Parser.Checked.spaces_eq.symm.trans (Option.some.inj h)
  | _ => cases h

end Descent
