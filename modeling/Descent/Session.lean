-- SUMMARY: Sequences of uses of one set of rules, inside scopes that a caller opens and closes.
import Descent.Engine.Run

/-! # Sessions

A session keeps what several uses of the same rules share: the state, and the
scopes that the caller has opened by hand. The scope that was opened last is
the active one. A run does not see it, but a parser that is tried at a cursor
works inside it. -/

namespace Descent

/-- A scope that a caller opened. -/
structure Context where
  /-- The limit that was asked for. -/
  requested : Int
  scope : Scope

/-- What several uses of the same rules share. -/
structure Session where
  rules : Rules
  clock : Nat → Rat := fun _ => 0
  state : State := {}
  /-- The scopes that are open, the active one first. -/
  contexts : List Context := []

namespace Session

/-- The active scope. -/
def active (s : Session) : Option Scope := s.contexts.head?.map (·.scope)

/-- What computations read in a session. -/
def env (s : Session) : Env where
  rules := s.rules
  scope := s.active
  clock := s.clock

/-- A computation in a session. -/
def perform {α : Type} (s : Session) (x : Eval α) : Except Fault α × Session :=
  match x.run s.env s.state with
  | (r, state) => (r, { s with state := state })

/-- Opens a scope. When its deadline cannot be set, the active scope stays as
    it is. -/
def push (s : Session) (requested : Int) (timeout : Option Timeout) (watched : Bool) :
    Except Fault Context × Session :=
  match s.perform (openScope requested timeout watched) with
  | (.ok scope, s') =>
    let context := ⟨requested, scope⟩
    (.ok context, { s' with contexts := context :: s'.contexts })
  | (.error f, s') => (.error f, s')

/-- Closes the active scope. -/
def pop (s : Session) : Session := { s with contexts := s.contexts.tail }

/-- The place of the active scope among the open ones, and its guard. -/
def current (s : Session) : Option (Nat × Guard) :=
  match s.contexts with
  | [] => none
  | c :: rest => some (rest.length, c.scope.guard)

/-- Changes the guard of the active scope. -/
def onGuard (s : Session) (f : Guard → Guard) : Session :=
  match s.contexts with
  | [] => s
  | c :: rest =>
    { s with contexts := { c with scope := { c.scope with guard := f c.scope.guard } } :: rest }

/-- Counts one more open delegation by hand. -/
def enter (s : Session) : Session := s.onGuard Guard.enter

/-- Counts one open delegation less by hand. -/
def leave (s : Session) : Session := s.onGuard Guard.leave

/-- Cancels the runs that watch for it. -/
def cancel (s : Session) : Session := { s with state := s.state.cancel }

/-- Whether the parser of a rule is there. -/
def isBuilt (s : Session) (rule : Rule) : Bool := (s.state.cells rule).isBuilt

/-- The parser of a rule, which is built now if it was not built before. -/
def resolve (s : Session) (rule : Rule) : Except Fault Grammar × Session :=
  s.perform (Descent.resolve (Grammar.runInner s.env) rule)

/-- The name of a parser. -/
def nameOf (s : Session) (g : Grammar) : String := g.name s.env.ruleName

/-- How a parser is shown. -/
def shown (s : Session) (g : Grammar) : String := g.shown s.env.ruleName

end Session

end Descent
