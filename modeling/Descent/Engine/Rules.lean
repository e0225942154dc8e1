-- SUMMARY: Rules that are built on first use, and delegations to them.
import Descent.Grammar.Semantics

/-! # Rules

The builder of a rule runs when the rule is first used, and at most once. If it
hands back a parser, the rule is that parser from then on. If it raises an error
or hands back something else, the rule is broken from then on and every use
raises the same error. A builder that uses its own rule finds that it is not
there yet.

A delegation to a rule is bracketed by the depth guard of the active run. The
number of delegations that may still be opened is the measure on which
evaluation recurs. -/

namespace Descent

/-- The names of the rules in an environment. -/
def Env.ruleName (env : Env) (rule : Rule) : String := (env.rules rule).name

namespace Body

/-- What the builder of `rule` hands back. -/
def build (runInner : RunGrammar) (rule : Rule) : Body → Eval (Grammar ⊕ Plain)
  | .grammar g => pure (.inl g)
  | .plain p => pure (.inr p)
  | .raise f => Eval.raise f
  | .run used source next => do
    let _ ← runInner {} (.ref used) source
    next.build runInner rule
  | .tryRun used source next => do
    match ← Eval.attempt (runInner {} (.ref used) source) with
    | .ok _ => next.build runInner rule
    | .error f =>
      if f.isGrammar then
        Eval.emit (.caught rule)
        next.build runInner rule
      else Eval.raise f

end Body

/-- The rule cannot be built from now on, for the given reason. -/
def breakRule {α : Type} (rule : Rule) (d : Diagnostic) (cause : Option Fault) : Eval α := do
  Eval.modify (·.setCell rule (.failed d cause))
  Eval.raise (.grammar d cause)

/-- Runs the builder of a rule that has not been built. -/
def buildRule (runInner : RunGrammar) (rule : Rule) : Eval Grammar := do
  let env ← Eval.ask
  let name := env.ruleName rule
  Eval.modify (·.setCell rule .building)
  Eval.emit (.building rule)
  match ← Eval.attempt ((env.rules rule).body.build runInner rule) with
  | .error f =>
    Eval.emit (.builderFailed name f.message)
    breakRule rule (.builderFailed name f.errorClass.name f.message) (some f)
  | .ok (.inr p) =>
    Eval.emit (.builderInvalid name p.shown)
    breakRule rule (.builderInvalid name p) none
  | .ok (.inl g) =>
    Eval.emit (.built name (g.name env.ruleName))
    Eval.modify (·.setCell rule (.built g))
    return g

/-- The parser of a rule, which is built now if it was not built before. -/
def resolve (runInner : RunGrammar) (rule : Rule) : Eval Grammar := do
  match (← Eval.get).cells rule with
  | .built g => return g
  | .failed d cause => Eval.raise (.grammar d cause)
  | .building => Eval.raise (.grammar (.reentrantBuild ((← Eval.ask).ruleName rule)) none)
  | .unbuilt => buildRule runInner rule

/-! ## Delegation -/

/-- Refuses a delegation to a rule. Inside a run its limit is reached; outside,
    only the host's stack sets one. -/
def refuse {α : Type} (rule : Rule) (position : Nat) : Eval α := do
  let env ← Eval.ask
  match env.scope with
  | none => Eval.raise .stackExhausted
  | some scope =>
    Eval.emit (.depthReached scope.guard.limit (env.ruleName rule) position)
    Eval.raise (.depth scope.guard.limit (env.ruleName rule) position)

/-- A computation one level deeper: the guard of the active run counts one more
    open delegation while it lasts. -/
def deeper {α : Type} (rule : Rule) (position : Nat) (x : Eval α) : Eval α := do
  match (← Eval.ask).scope with
  | none => x
  | some scope =>
    let guard := scope.guard.enter
    Eval.emit (.opened rule position guard.depth)
    Eval.closing (.closed rule) (Eval.within (some { scope with guard := guard }) x)

/-! Inside a run the guard is there to be looked at. -/

theorem run_refuse {α : Type} {env : Env} {scope : Scope} (h : env.scope = some scope)
    (rule : Rule) (position : Nat) (s : State) :
    (refuse rule position : Eval α).run env s =
      (.error (.depth scope.guard.limit (env.ruleName rule) position),
        s.emit (.depthReached scope.guard.limit (env.ruleName rule) position)) := by
  simp only [refuse, Eval.run_bind, Eval.run_ask, h, Eval.run_emit, Eval.run_raise]

theorem run_deeper {α : Type} {env : Env} {scope : Scope} (h : env.scope = some scope)
    (rule : Rule) (position : Nat) (x : Eval α) (s : State) :
    (deeper rule position x).run env s =
      (Eval.closing (.closed rule) x).run
        { env with scope := some { scope with guard := scope.guard.enter } }
        (s.emit (.opened rule position scope.guard.enter.depth)) := by
  simp only [deeper, Eval.run_bind, Eval.run_ask, h, Eval.run_emit]
  rfl

/-- Goes on with a rule at a cursor, when so many delegations may still be
    opened. The rule is built first if need be, then the limits of the run are
    looked at. -/
def delegate (ruleName : Rule → String) (runInner : RunGrammar) :
    (allowance : Nat) → Rule → Cursor → Eval Outcome
  | 0, rule, c => do
    let _ ← resolve runInner rule
    checkpoint c.pos
    refuse rule c.pos
  | n + 1, rule, c => do
    let g ← resolve runInner rule
    checkpoint c.pos
    deeper rule c.pos ((g.denote ⟨ruleName, delegate ruleName runInner n, runInner⟩).fn c)

end Descent
