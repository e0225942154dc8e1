-- SUMMARY: The failure of a parser, with the failures that caused it.
import Descent.Diagnostic.Catalogue

/-! # Failures

A parser that does not match answers with a failure: what was wrong, where, and
what would have been accepted there. A failure of a composite parser carries
the failures of its parts. A failure has no cursor, so a parser that goes on
after one can only go on from a cursor that it held before. -/

namespace Descent

/-- A failure and its causes. -/
structure Failure where
  kind : FailureKind
  /-- The offset at which the parser failed. -/
  position : Int
  message : String
  /-- What would have been accepted at the position. -/
  expected : List String := []
  /-- The place of the element that failed, for sequences. -/
  index : Option Int := none
  /-- The failures of the parts, for composite parsers. -/
  causes : List Failure := []
  deriving Repr, Inhabited

namespace Failure

/-- The failure without causes that a diagnostic of the catalogue describes. -/
def ofDiagnostic (kind : FailureKind) (position : Nat) (d : Diagnostic) : Failure where
  kind := kind
  position := position
  message := d.message
  expected := d.expected

mutual
/-- The leaf that reached furthest into the input; of several, the last one. -/
def deepest : Failure → Failure
  | ⟨k, p, m, e, i, []⟩ => ⟨k, p, m, e, i, []⟩
  | ⟨_, _, _, _, _, c :: cs⟩ => deepestOf (deepest c) cs

/-- The furthest among `best` and the deepest leaves of the failures that follow. -/
def deepestOf (best : Failure) : List Failure → Failure
  | [] => best
  | c :: cs =>
    let leaf := deepest c
    deepestOf (if best.position ≤ leaf.position then leaf else best) cs
end

end Failure

end Descent
