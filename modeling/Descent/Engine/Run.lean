-- SUMMARY: Runs of a parser over a whole source, under limits.
import Descent.Engine.Rules
import Descent.Failure.Report

/-! # Runs

A run starts a parser at the beginning of a source, inside a scope of its own:
a guard, a deadline and whether it can be cancelled. The scope that was active
before plays no part, and it is active again afterwards. Unless input may be
left over, a match that ends before the source does is a failure. -/

namespace Descent

/-- Whether a source of the given size is too large. -/
def RunOptions.rejects (o : RunOptions) (size : Nat) : Bool :=
  0 < o.maxSize && o.maxSize < size

/-- The number of nested delegations that a run may open. -/
def RunOptions.allowance (o : RunOptions) : Nat := (Guard.ofRequested o.maxDepth).allowance

/-- Writes down that a limit has to be lowered, if so. -/
def noteLowered (maxDepth : Int) : Eval Unit :=
  match StackBudget.lowered? {} maxDepth with
  | some e => Eval.emit e
  | none => pure ()

/-- The scope of a run that starts now. A limit that is lowered is written down
    before the timeout is looked at. -/
def openScope (maxDepth : Int) (timeout : Option Timeout) (watched : Bool) : Eval Scope := do
  noteLowered maxDepth
  let guard := Guard.ofRequested maxDepth
  match timeout with
  | none => return { guard := guard, watched := watched }
  | some t =>
    let now ← Eval.readClock
    let seconds ← Eval.ofExcept t.seconds
    return { guard := guard, deadline := some ⟨now, seconds⟩, watched := watched }

namespace Outcome

/-- The outcome of a run: a match that leaves input over may be a failure. -/
def whole (o : RunOptions) : Outcome → Outcome
  | .success v c =>
    match o.allowRest, c.head? with
    | false, some found => Parser.trailing c found
    | _, _ => .success v c
  | .failure f => .failure f

end Outcome

namespace Parser

/-- Ends a run with an outcome. A failure is written down. -/
def conclude (p : Parser) : Outcome → Eval Outcome
  | .success v n => return .success v n
  | .failure f => do
    Eval.emit (.failed p.name f.position f.message)
    return .failure f

/-- Runs a parser over a source. -/
def run (p : Parser) (o : RunOptions) (source : Source) : Eval Outcome := do
  if o.rejects source.size then
    Eval.raise (.sourceTooLarge source.size o.maxSize)
  let scope ← openScope o.maxDepth o.timeout o.watched
  Eval.emit (.running p.name source.size)
  let outcome ← Eval.closing .ended (Eval.within (some scope) (p.fn (.start source)))
  p.conclude (outcome.whole o)

/-- Runs a parser over a source; a failure is a fault. -/
def runToValue (p : Parser) (o : RunOptions) (source : Source) : Eval Value := do
  match ← p.run o source with
  | .success v _ => return v
  | .failure f =>
    let d ← Eval.ofExcept ((f.toDiagnostic source (some p.name)).mapError .span)
    let text ← Eval.ofExcept ((({} : Formatter).renderFailure f source (some p.name)).mapError .span)
    Eval.emit (.report text)
    Eval.raise (.failed d f source.text)

end Parser

/-! ## Runs of grammars -/

namespace Grammar

/-- Runs a grammar over a text, with so many runs inside one another. Every run
    opens delegations on its own account. -/
def runNested (ruleName : Rule → String) : (runs : Nat) → RunGrammar
  | 0, _, _, _ => Eval.raise .stackExhausted
  | n + 1, o, g, text =>
    let inner := runNested ruleName n
    (g.denote ⟨ruleName, delegate ruleName inner o.allowance, inner⟩).run o (.ofString text)

/-- How grammars start runs in an environment: as many inside one another as the
    host's stack holds. -/
def runInner (env : Env) : RunGrammar := runNested env.ruleName stackLimit

/-- The parser of a grammar when so many delegations may be opened. -/
def parser (g : Grammar) (env : Env) (allowance : Nat) : Parser :=
  g.denote ⟨env.ruleName, delegate env.ruleName (runInner env) allowance, runInner env⟩

/-- Runs a grammar over a source. -/
def run (g : Grammar) (o : RunOptions) (source : Source) : Eval Outcome := do
  (g.parser (← Eval.ask) o.allowance).run o source

/-- Runs a grammar over a source; a failure is a fault. -/
def runToValue (g : Grammar) (o : RunOptions) (source : Source) : Eval Value := do
  (g.parser (← Eval.ask) o.allowance).runToValue o source

/-- Tries a grammar at a cursor, inside the active scope if there is one. -/
def call (g : Grammar) (c : Cursor) : Eval Outcome := do
  let env ← Eval.ask
  let allowance := match env.scope with
    | none => stackLimit
    | some scope => scope.guard.allowance
  (g.parser env allowance).fn c

end Grammar

end Descent
