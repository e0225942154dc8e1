-- SUMMARY: Timeouts as callers give them, and the deadlines that they set.
import Descent.Fault

/-! # Deadlines

A timeout is given as a whole number or as a measured one. A whole number can be
of any size; one that is too large for a length of time is refused when the
deadline is set, and not before. A deadline is set when a scope is opened, and
it is looked at by every checkpoint of that scope. -/

namespace Descent

/-- A timeout as a caller gives it. -/
inductive Timeout
  | whole (n : Int)
  | measured (s : Seconds)
  deriving DecidableEq, Repr

/-- The length of time that a timeout stands for. -/
def Timeout.seconds : Timeout → Except Fault Seconds
  | .whole n =>
    match Seconds.ofWhole? n with
    | some s => .ok s
    | none => .error .timeoutTooLarge
  | .measured s => .ok s

/-- A timeout, and the reading of the clock at which its time began. -/
structure Deadline where
  start : Rat
  timeout : Seconds
  deriving DecidableEq, Repr

namespace Deadline

/-- Whether the time is over at a reading of the clock. -/
def isOver (d : Deadline) (now : Rat) : Bool := d.timeout.isOver d.start now

/-- Refuses to go on at a reading of the clock when the time is over. -/
def permit (d : Deadline) (now : Rat) (position : Int) : Except Fault Unit :=
  if d.isOver now then .error (.deadline d.timeout.orZero position) else .ok ()

end Deadline

end Descent
