-- SUMMARY: The limit on nested rules: a counter of open delegations, and the ceiling that the host's stack sets.
import Descent.Engine.Journal
import Descent.Fault

/-! # The depth guard

A recursive rule nests once per level of its input. The guard of a run counts
the delegations to rules that are open and refuses one more when their limit is
reached. The limit is a fault and not a failure, so that no choice or repetition
can take it for an absent element.

A limit that the host's stack could not hold is lowered: the stack has room for
a fixed number of frames, some are kept in reserve, and each level of nesting
costs several. -/

namespace Descent

/-- The default limit on nested delegations. -/
def defaultMaxDepth : Int := 64

/-! ## The ceiling -/

/-- The number of frames that the host's stack holds. -/
def stackLimit : Nat := 1000

/-- What a level of nesting costs, and what the stack has. -/
structure StackBudget where
  framesPerLevel : Int := 12
  reserve : Int := 50
  limit : Int := stackLimit
  deriving DecidableEq, Repr

/-- The number of levels that fit in the budget; at least one does. -/
def StackBudget.ceiling (b : StackBudget) : Int :=
  max 1 ((b.limit - b.reserve).fdiv b.framesPerLevel)

/-- A requested limit, lowered to the ceiling of the host's own stack. -/
def effectiveLimit (requested : Int) : Int := min requested (StackBudget.ceiling {})

/-- A requested limit, lowered to the ceiling of a given budget. A budget in
    which levels cost nothing has no ceiling. -/
def StackBudget.limit? (b : StackBudget) (requested : Int) : Except Fault Int :=
  if b.framesPerLevel = 0 then .error .noFrames else .ok (min requested b.ceiling)

/-- What is written down about a requested limit that is lowered. -/
def StackBudget.lowered? (b : StackBudget) (requested : Int) : Option Event :=
  if b.ceiling < requested then some (.clamped requested b.limit b.ceiling) else none

/-! ## The guard -/

/-- A limit and the number of open delegations. -/
structure Guard where
  limit : Int
  depth : Nat := 0
  deriving DecidableEq, Repr

namespace Guard

/-- The guard of a run with a requested limit. -/
def ofRequested (requested : Int) : Guard where
  limit := effectiveLimit requested

/-- Whether the limit is reached. -/
def isFull (g : Guard) : Bool := g.limit ≤ g.depth

/-- One more delegation is open. -/
def enter (g : Guard) : Guard := { g with depth := g.depth + 1 }

/-- One delegation less is open. -/
def leave (g : Guard) : Guard := { g with depth := g.depth - 1 }

/-- No delegation is open. -/
def reset (g : Guard) : Guard := { g with depth := 0 }

/-- Refuses a delegation to a rule when the limit is reached. -/
def permit (g : Guard) (rule : String) (position : Int) : Except Fault Unit :=
  if g.isFull then .error (.depth g.limit rule position) else .ok ()

/-- The number of delegations that may still be opened. -/
def allowance (g : Guard) : Nat := (g.limit - g.depth).toNat

/-- Nothing is allowed exactly when the limit is reached. -/
theorem allowance_eq_zero_iff (g : Guard) : g.allowance = 0 ↔ g.isFull = true := by
  simp only [allowance, isFull, decide_eq_true_eq]; omega

/-- An open delegation uses up one of those allowed. -/
theorem allowance_enter (g : Guard) : g.enter.allowance = g.allowance - 1 := by
  simp only [allowance, enter]; omega

theorem leave_enter (g : Guard) : g.enter.leave = g := rfl

end Guard

end Descent
