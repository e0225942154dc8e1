-- SUMMARY: Repetition, optional parts and separated lists.
import Descent.Parser.Basic

/-! # Repetition

A repetition goes on as long as its parser matches and consumes something. A
match that consumes nothing is kept and ends the repetition, since it would be
the same again. Before each round the limits of the active run are looked at. -/

namespace Descent

/-- How a repetition ended. -/
structure Repetition where
  values : List Value
  stop : Cursor
  /-- The failure of the last attempt, unless a match without text ended the
      repetition. -/
  ended : Option Failure

/-- The failure of a repetition that has to match once, at a cursor where the
    named parser failed. -/
def Failure.insufficient (parser : String) (c : Cursor) (f : Failure) : Failure where
  kind := .insufficientRepetition
  position := c.pos
  message := (Diagnostic.insufficientRepetition parser f.message).message
  expected := f.expected
  causes := [f]

namespace Parser

/-- The rounds of a repetition from a cursor on, after the values of the rounds
    before it, the last of them first. -/
def repeatLoop (p : Parser) (env : Env) (c : Cursor) (values : List Value) (s : State) :
    Except Fault Repetition × State :=
  match (checkpoint c.pos).run env s with
  | (.error e, s₁) => (.error e, s₁)
  | (.ok _, s₁) => match (p.fn c).run env s₁ with
    | (.error e, s₂) => (.error e, s₂)
    | (.ok (.failure f), s₂) => (.ok ⟨values.reverse, c, some f⟩, s₂)
    | (.ok (.success v next), s₂) =>
      if next.remaining < c.remaining then repeatLoop p env next (v :: values) s₂
      else (.ok ⟨(v :: values).reverse, c, none⟩, s₂.emit (.zeroWidth p.name c.pos))
termination_by c.remaining

/-- All rounds of a repetition. -/
def repeated (p : Parser) (c : Cursor) : Eval Repetition :=
  ⟨fun env s => repeatLoop p env c [] s⟩

/-- A parser any number of times, with the list of its values. -/
def many (p : Parser) : Parser where
  name := p.name ++ "*"
  fn := fun c => do
    let r ← p.repeated c
    return .success (.list r.values) r.stop

/-- A parser at least once, with the list of its values. -/
def many1 (p : Parser) : Parser where
  name := p.name ++ "+"
  fn := fun c => do
    let r ← p.repeated c
    match r.values, r.ended with
    | [], some f => return .failure (f.insufficient p.name c)
    | values, _ => return .success (.list values) r.stop

/-- A parser or nothing, with the empty list as the value of nothing. -/
def optional (p : Parser) : Parser where
  name := p.name ++ "?"
  fn := fun c => do
    match ← p.fn c with
    | .success v n => return .success v n
    | .failure _ => return .success (.list []) c

/-! ## Separated lists -/

/-- The rounds of a separated list after an item that ended at a cursor. Each
    round is a separator and an item; a separator without an item after it is
    given back, and so is a round that consumes nothing. -/
def separatedLoop (p sep : Parser) (env : Env) (c : Cursor) (values : List Value) (s : State) :
    Except Fault Outcome × State :=
  match (checkpoint c.pos).run env s with
  | (.error e, s₁) => (.error e, s₁)
  | (.ok _, s₁) => match (sep.fn c).run env s₁ with
    | (.error e, s₂) => (.error e, s₂)
    | (.ok (.failure _), s₂) => (.ok (.success (.list values.reverse) c), s₂)
    | (.ok (.success _ after), s₂) => match (p.fn after).run env s₂ with
      | (.error e, s₃) => (.error e, s₃)
      | (.ok (.failure _), s₃) => (.ok (.success (.list values.reverse) c), s₃)
      | (.ok (.success v next), s₃) =>
        if next.remaining < c.remaining then separatedLoop p sep env next (v :: values) s₃
        else (.ok (.success (.list values.reverse) c), s₃)
termination_by c.remaining

/-- The rest of a separated list after its first item. -/
def separated (p sep : Parser) (first : Value) (c : Cursor) : Eval Outcome :=
  ⟨fun env s => separatedLoop p sep env c [first] s⟩

/-- A parser any number of times with separators between, whose values are
    dropped. -/
def sepBy (p sep : Parser) : Parser where
  name := "sep_by(" ++ p.name ++ ", " ++ sep.name ++ ")"
  fn := fun c => do
    match ← p.fn c with
    | .failure _ => return .success (.list []) c
    | .success v n => separated p sep v n

/-- A parser at least once with separators between, whose values are dropped. -/
def sepBy1 (p sep : Parser) : Parser where
  name := "sep_by1(" ++ p.name ++ ", " ++ sep.name ++ ")"
  fn := fun c => do
    match ← p.fn c with
    | .failure f => return .failure f
    | .success v n => separated p sep v n

/-! ## Rounds as computations

Each loop, read as a computation, is one round and then the rest of the loop. -/

/-- The rounds of a repetition from a cursor on. -/
def repeatFrom (p : Parser) (c : Cursor) (values : List Value) : Eval Repetition :=
  ⟨fun env s => repeatLoop p env c values s⟩

theorem repeated_eq (p : Parser) (c : Cursor) : p.repeated c = p.repeatFrom c [] := rfl

theorem repeatFrom_eq (p : Parser) (c : Cursor) (values : List Value) :
    p.repeatFrom c values = do
      checkpoint c.pos
      match ← p.fn c with
      | .failure f => return ⟨values.reverse, c, some f⟩
      | .success v next =>
        if next.remaining < c.remaining then p.repeatFrom next (v :: values)
        else do
          Eval.emit (.zeroWidth p.name c.pos)
          return ⟨(v :: values).reverse, c, none⟩ := by
  ext env s : 3
  simp only [repeatFrom, Eval.run_bind]
  rw [repeatLoop]
  rcases (checkpoint c.pos).run env s with ⟨_ | _, s₁⟩
  · rfl
  · dsimp only
    rcases (p.fn c).run env s₁ with ⟨_ | v, s₂⟩
    · rfl
    · cases v with
      | failure f => rfl
      | success v next => dsimp only; split <;> rfl

/-- The rounds of a separated list from a cursor on. -/
def separatedFrom (p sep : Parser) (c : Cursor) (values : List Value) : Eval Outcome :=
  ⟨fun env s => separatedLoop p sep env c values s⟩

theorem separatedFrom_eq (p sep : Parser) (c : Cursor) (values : List Value) :
    p.separatedFrom sep c values = do
      checkpoint c.pos
      match ← sep.fn c with
      | .failure _ => return .success (.list values.reverse) c
      | .success _ after => match ← p.fn after with
        | .failure _ => return .success (.list values.reverse) c
        | .success v next =>
          if next.remaining < c.remaining then p.separatedFrom sep next (v :: values)
          else return .success (.list values.reverse) c := by
  ext env s : 3
  simp only [separatedFrom, Eval.run_bind]
  rw [separatedLoop]
  rcases (checkpoint c.pos).run env s with ⟨_ | _, s₁⟩
  · rfl
  · dsimp only
    rcases (sep.fn c).run env s₁ with ⟨_ | v, s₂⟩
    · rfl
    · cases v with
      | failure f => rfl
      | success w after =>
        simp only [Eval.run_bind]
        rcases (p.fn after).run env s₂ with ⟨_ | v, s₃⟩
        · rfl
        · cases v with
          | failure f => rfl
          | success v next => dsimp only; split <;> rfl

end Parser

end Descent
