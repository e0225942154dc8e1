-- SUMMARY: The computations of the engine: an environment to read, a state that is kept even when a fault stops the computation.
import Descent.Grammar.Basic

/-! # Computations

A computation reads the rules, the active scope and the clock, changes the
state, and ends with an answer or a fault. The state is kept in both cases: what
a stopped evaluation has built and written down stays. -/

namespace Descent

/-! ## Environment and state -/

/-- The limits under which the parsers of one run work. -/
structure Scope where
  guard : Guard
  /-- When the time is over, if it ever is. -/
  deadline : Option Deadline := none
  /-- Whether the run stops when it is cancelled. -/
  watched : Bool := false

/-- What a computation can read. -/
structure Env where
  rules : Rules
  /-- The scope of the run that is active, if any. -/
  scope : Option Scope := none
  /-- The readings of the clock, in the order in which they are taken. -/
  clock : Nat → Rat := fun _ => 0

/-- What is known about a rule. -/
inductive Cell
  /-- The builder has not run. -/
  | unbuilt
  /-- The builder is running. -/
  | building
  /-- The builder handed back a parser. -/
  | built (g : Grammar)
  /-- The rule cannot be built. -/
  | failed (d : Diagnostic) (cause : Option Fault)

/-- Whether the parser of the rule is there. -/
def Cell.isBuilt : Cell → Bool
  | .built _ => true
  | _ => false

/-- What a computation can change. -/
structure State where
  cells : Rule → Cell := fun _ => .unbuilt
  /-- Whether the runs that watch for it are cancelled. -/
  cancelled : Bool := false
  /-- How often the predicates with triggers were called. -/
  calls : List (Nat × Nat) := []
  /-- How often the clock was read. -/
  readings : Nat := 0
  journal : Journal := []

namespace State

/-- Writes an event down. -/
def emit (s : State) (e : Event) : State := { s with journal := e :: s.journal }

/-- Changes what is known about a rule. -/
def setCell (s : State) (rule : Rule) (cell : Cell) : State :=
  { s with cells := fun r => if r = rule then cell else s.cells r }

/-- Cancels the runs that watch for it. -/
def cancel (s : State) : State := { s with cancelled := true }

end State

/-! ## Computations -/

/-- A computation with an answer of type `α`. -/
@[ext] structure Eval (α : Type) where
  run : Env → State → Except Fault α × State

namespace Eval

/-- The computation that only answers. -/
@[inline] protected def pure {α : Type} (a : α) : Eval α := ⟨fun _ s => (.ok a, s)⟩

/-- One computation and, unless a fault stops it, another one. -/
@[inline] protected def bind {α β : Type} (x : Eval α) (f : α → Eval β) : Eval β :=
  ⟨fun env s => match x.run env s with
    | (.ok a, s') => (f a).run env s'
    | (.error e, s') => (.error e, s')⟩

@[always_inline] instance : Monad Eval where
  pure := Eval.pure
  bind := Eval.bind

/-- Stops with a fault. -/
@[inline] def raise {α : Type} (f : Fault) : Eval α := ⟨fun _ s => (.error f, s)⟩

/-- Answers, or stops with the fault. -/
@[inline] def ofExcept {α : Type} (x : Except Fault α) : Eval α := ⟨fun _ s => (x, s)⟩

/-- Turns a fault into an answer. -/
@[inline] def attempt {α : Type} (x : Eval α) : Eval (Except Fault α) :=
  ⟨fun env s => match x.run env s with
    | (r, s') => (.ok r, s')⟩

/-- The environment. -/
@[inline] def ask : Eval Env := ⟨fun env s => (.ok env, s)⟩

/-- The state. -/
@[inline] def get : Eval State := ⟨fun _ s => (.ok s, s)⟩

/-- Changes the state. -/
@[inline] def modify (f : State → State) : Eval Unit := ⟨fun _ s => (.ok (), f s)⟩

/-- Writes an event down. -/
@[inline] def emit (e : Event) : Eval Unit := modify (·.emit e)

/-- Writes an event down after a computation, also after one that is stopped. -/
@[inline] def closing {α : Type} (e : Event) (x : Eval α) : Eval α :=
  ⟨fun env s => match x.run env s with
    | (r, s') => (r, s'.emit e)⟩

/-- A computation inside another scope. The active scope is the same as before
    when the computation is over. -/
@[inline] def within {α : Type} (scope : Option Scope) (x : Eval α) : Eval α :=
  ⟨fun env s => x.run { env with scope := scope } s⟩

/-- Reads the clock. -/
def readClock : Eval Rat :=
  ⟨fun env s => (.ok (env.clock s.readings), { s with readings := s.readings + 1 })⟩

/-! ## Equations -/

@[simp] theorem run_pure {α : Type} (a : α) (env : Env) (s : State) :
    (pure a : Eval α).run env s = (.ok a, s) := rfl

theorem run_bind {α β : Type} (x : Eval α) (f : α → Eval β) (env : Env) (s : State) :
    (x >>= f).run env s = match x.run env s with
      | (.ok a, s') => (f a).run env s'
      | (.error e, s') => (.error e, s') := rfl

theorem run_bind_of_ok {α β : Type} {x : Eval α} {f : α → Eval β} {env : Env} {s s' : State}
    {a : α} (h : x.run env s = (.ok a, s')) : (x >>= f).run env s = (f a).run env s' := by
  rw [run_bind, h]

theorem run_bind_of_error {α β : Type} {x : Eval α} {f : α → Eval β} {env : Env} {s s' : State}
    {e : Fault} (h : x.run env s = (.error e, s')) : (x >>= f).run env s = (.error e, s') := by
  rw [run_bind, h]

@[simp] theorem run_raise {α : Type} (f : Fault) (env : Env) (s : State) :
    (raise f : Eval α).run env s = (.error f, s) := rfl

@[simp] theorem run_ofExcept {α : Type} (x : Except Fault α) (env : Env) (s : State) :
    (ofExcept x).run env s = (x, s) := rfl

@[simp] theorem run_attempt {α : Type} (x : Eval α) (env : Env) (s : State) :
    (attempt x).run env s = (.ok (x.run env s).1, (x.run env s).2) := rfl

@[simp] theorem run_ask (env : Env) (s : State) : ask.run env s = (.ok env, s) := rfl

@[simp] theorem run_get (env : Env) (s : State) : get.run env s = (.ok s, s) := rfl

@[simp] theorem run_modify (f : State → State) (env : Env) (s : State) :
    (modify f).run env s = (.ok (), f s) := rfl

@[simp] theorem run_emit (e : Event) (env : Env) (s : State) :
    (emit e).run env s = (.ok (), s.emit e) := rfl

@[simp] theorem run_closing {α : Type} (e : Event) (x : Eval α) (env : Env) (s : State) :
    (closing e x).run env s = ((x.run env s).1, (x.run env s).2.emit e) := rfl

@[simp] theorem run_within {α : Type} (scope : Option Scope) (x : Eval α) (env : Env)
    (s : State) : (within scope x).run env s = x.run { env with scope := scope } s := rfl

@[simp] theorem run_readClock (env : Env) (s : State) :
    readClock.run env s =
      (.ok (env.clock s.readings), { s with readings := s.readings + 1 }) := rfl

theorem pure_bind {α β : Type} (a : α) (f : α → Eval β) : pure a >>= f = f a := rfl

theorem bind_assoc {α β γ : Type} (x : Eval α) (f : α → Eval β) (g : β → Eval γ) :
    (x >>= f) >>= g = x >>= fun a => f a >>= g := by
  ext env s : 3
  simp only [run_bind]
  rcases x.run env s with ⟨r, s'⟩
  cases r <;> rfl

end Eval

/-! ## Limits -/

/-- Looks at the limits of the active run, if there is one: first whether the
    run was cancelled, then whether its time is over. -/
def checkpoint (position : Int) : Eval Unit := do
  match (← Eval.ask).scope with
  | none => pure ()
  | some scope =>
    Eval.emit (.checkpoint position)
    if scope.watched && (← Eval.get).cancelled then
      Eval.raise (.cancelled position)
    else match scope.deadline with
      | none => pure ()
      | some deadline =>
        let now ← Eval.readClock
        Eval.ofExcept (deadline.permit now position)

end Descent
