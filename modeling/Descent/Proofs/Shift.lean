-- SUMMARY: Cursors, failures and faults moved on by a text in front of the source.
import Descent.Proofs.BigStep

/-! # Moving a source on

Putting a text in front of a source moves every position on by its length and
changes nothing that can be read from there. The operations on cursors and
failures commute with this. -/

namespace Descent

/-! ## Cursors -/

namespace Cursor

/-- The same place in the source with `u` in front of it. -/
def shift (u : Source) (c : Cursor) : Cursor where
  source := u ++ c.source
  pos := u.size + c.pos
  pos_le := by
    have := c.pos_le
    rw [Array.size_append]
    omega

variable {u : Source} {c : Cursor}

@[simp] theorem shift_source : (c.shift u).source = u ++ c.source := rfl

@[simp] theorem shift_pos : (c.shift u).pos = u.size + c.pos := rfl

@[simp] theorem shift_empty (c : Cursor) : c.shift #[] = c := by
  ext1
  · exact Array.empty_append
  · exact Nat.zero_add c.pos

@[simp] theorem remaining_shift : (c.shift u).remaining = c.remaining := by
  simp only [remaining, shift_source, shift_pos, Array.size_append]
  omega

@[simp] theorem rest_shift : (c.shift u).rest = c.rest := by
  simp only [rest, shift_source, shift_pos, Array.toList_append]
  rw [← List.drop_drop, ← Array.length_toList, List.drop_left]

@[simp] theorem head?_shift : (c.shift u).head? = c.head? := by
  simp [head?_eq]

@[simp] theorem canRead_shift (n : Int) : (c.shift u).canRead n = c.canRead n := by
  rw [Bool.eq_iff_iff, canRead_iff, canRead_iff, rest_shift]

@[simp] theorem textAhead_shift (n : Nat) : (c.shift u).textAhead n = c.textAhead n := by
  simp [textAhead_eq]

theorem advance_shift (n : Int) : (c.shift u).advance n = (c.advance n).shift u := by
  ext1
  · rfl
  · simp only [advance_pos, shift_source, shift_pos, Array.size_append]
    omega

/-- The text up to a later cursor is the front of what is left. -/
theorem Onward.textUpTo_eq {n : Cursor} (h : c.Onward n) :
    c.textUpTo n.pos = c.textAhead (n.pos - c.pos : Nat) := by
  have hle := h.pos
  unfold textAhead
  congr 1
  omega

theorem Onward.shift {n : Cursor} (h : c.Onward n) : (c.shift u).Onward (n.shift u) :=
  ⟨by rw [shift_source, shift_source, h.source], Nat.add_le_add_left h.pos _⟩

theorem textUpTo_shift {n : Cursor} (h : c.Onward n) :
    (c.shift u).textUpTo (n.shift u).pos = c.textUpTo n.pos := by
  have hpos : (n.shift u).pos - (c.shift u).pos = n.pos - c.pos := by
    rw [shift_pos, shift_pos]
    omega
  rw [h.shift.textUpTo_eq, h.textUpTo_eq, hpos, textAhead_shift]

theorem skipBlanks_shift (u : Source) (c : Cursor) :
    Parser.skipBlanks (c.shift u) = (Parser.skipBlanks c).shift u := by
  simp [Parser.skipBlanks_eq, advance_shift]

end Cursor

/-! ## Failures -/

namespace Failure

mutual
/-- The failure with all positions moved on by `k`. -/
def shift (k : Int) : Failure → Failure
  | ⟨kind, position, message, expected, index, causes⟩ =>
    ⟨kind, position + k, message, expected, index, shiftAll k causes⟩

/-- Several failures with all positions moved on by `k`. -/
def shiftAll (k : Int) : List Failure → List Failure
  | [] => []
  | f :: fs => f.shift k :: shiftAll k fs
end

variable {k : Int}

theorem shiftAll_eq_map (fs : List Failure) : shiftAll k fs = fs.map (shift k) := by
  induction fs with
  | nil => rfl
  | cons f fs ih => rw [shiftAll, ih, List.map_cons]

@[simp] theorem shift_kind (f : Failure) : (f.shift k).kind = f.kind := by cases f; rfl

@[simp] theorem shift_position (f : Failure) : (f.shift k).position = f.position + k := by
  cases f; rfl

@[simp] theorem shift_message (f : Failure) : (f.shift k).message = f.message := by cases f; rfl

@[simp] theorem shift_expected (f : Failure) : (f.shift k).expected = f.expected := by
  cases f; rfl

@[simp] theorem shift_causes (f : Failure) : (f.shift k).causes = f.causes.map (shift k) := by
  cases f
  exact shiftAll_eq_map _

theorem shift_mk (kind : FailureKind) (position : Int) (message : String)
    (expected : List String) (index : Option Int) (causes : List Failure) :
    (Failure.mk kind position message expected index causes).shift k =
      ⟨kind, position + k, message, expected, index, causes.map (shift k)⟩ := by
  simp [shift, shiftAll_eq_map]

mutual
@[simp] theorem shift_zero (f : Failure) : f.shift 0 = f := by
  cases f with
  | mk kind position message expected index causes =>
    simp [shift, shiftAll_zero causes]

theorem shiftAll_zero (fs : List Failure) : shiftAll 0 fs = fs := by
  cases fs with
  | nil => rfl
  | cons f fs => rw [shiftAll, shift_zero f, shiftAll_zero fs]
end

theorem ofDiagnostic_shift (kind : FailureKind) (n m : Nat) (d : Diagnostic) :
    (ofDiagnostic kind n d).shift m = ofDiagnostic kind (m + n) d := by
  simp only [ofDiagnostic, shift_mk, List.map_nil, Int.natCast_add, Int.add_comm]

theorem ofElement_shift (index : Nat) (f : Failure) :
    (f.ofElement index).shift k = (f.shift k).ofElement index := by
  simp only [ofElement, shift_mk, List.map_cons, List.map_nil, shift_position, shift_message,
    shift_expected]

theorem insufficient_shift (parser : String) (u : Source) (c : Cursor) (f : Failure) :
    (f.insufficient parser c).shift u.size = (f.shift u.size).insufficient parser (c.shift u) := by
  simp only [insufficient, shift_mk, List.map_cons, List.map_nil, shift_message, shift_expected,
    Cursor.shift_pos, Int.natCast_add, Int.add_comm]

theorem spliced_shift (f : Failure) : (f.shift k).spliced = f.spliced.map (shift k) := by
  unfold spliced
  rw [shift_kind, shift_causes]
  split <;> rfl

theorem furthest_shift (f : Failure) (fs : List Failure) :
    furthest (f.shift k) (fs.map (shift k)) = (furthest f fs).shift k := by
  induction fs generalizing f with
  | nil => rfl
  | cons g fs ih =>
    have hle : (f.shift k).position ≤ (g.shift k).position ↔ f.position ≤ g.position := by
      rw [shift_position, shift_position]
      omega
    rw [List.map_cons, furthest, furthest, ← ih]
    congr 1
    simp only [hle]
    split <;> rfl

theorem expectedAt_shift (p : Int) (fs : List Failure) :
    expectedAt (p + k) (fs.map (shift k)) = expectedAt p fs := by
  have hat (f : Failure) : (f.shift k).position = p + k ↔ f.position = p := by
    rw [shift_position]
    omega
  unfold expectedAt
  rw [List.filter_map, List.flatMap_map]
  simp only [Function.comp_def, hat, shift_expected]

/-- A failed choice does not depend on where the source begins. -/
theorem alternatives?_shift (bs : List Failure) :
    alternatives? (bs.map (shift k)) = (alternatives? bs).map (shift k) := by
  have hspliced : (bs.map (shift k)).flatMap spliced = (bs.flatMap spliced).map (shift k) := by
    rw [List.flatMap_map, List.map_flatMap]
    simp only [spliced_shift]
  unfold alternatives?
  rw [hspliced]
  cases bs.flatMap spliced with
  | nil => rfl
  | cons f fs =>
    simp only [List.map_cons, furthest_shift, shift_position, shift_message, Option.map_some,
      shift_mk]
    simp [← List.map_cons, expectedAt_shift]

end Failure

/-! ## Outcomes and faults -/

/-- The outcome in the source with `u` in front of it. -/
def Outcome.shift (u : Source) : Outcome → Outcome
  | .success v n => .success v (n.shift u)
  | .failure f => .failure (f.shift u.size)

@[simp] theorem Outcome.shift_empty (o : Outcome) : o.shift #[] = o := by
  cases o with
  | success v n => rw [shift, Cursor.shift_empty]
  | failure f => exact congrArg _ f.shift_zero

theorem Outcome.failAt_shift (u : Source) (c : Cursor) (kind : FailureKind) (d : Diagnostic) :
    (failAt c kind d).shift u = failAt (c.shift u) kind d :=
  congrArg _ (Failure.ofDiagnostic_shift kind c.pos u.size d)

/-- The fault with its position moved on by `k`, if it has one in the source of
    the run. -/
def Fault.shift (k : Int) : Fault → Fault
  | .cancelled position => .cancelled (position + k)
  | .deadline timeout position => .deadline timeout (position + k)
  | .depth limit rule position => .depth limit rule (position + k)
  | f => f

@[simp] theorem Fault.shift_zero (f : Fault) : f.shift 0 = f := by
  cases f <;> simp [shift]

end Descent
