-- SUMMARY: Decimal digits write a number without zeros in front, and read back as this number.
import Descent.Text.Digits

/-! # Numerals

Integers are written with decimal digits. These are digits indeed, there is at least one of
them, no zero stands in front of another, and the number that they write is the one that they
came from. -/

namespace Descent

namespace Digits

/-- The number that decimal digits write. -/
def value (ds : List Char) : Nat := ds.foldl (fun n d => 10 * n + (d.toNat - '0'.toNat)) 0

theorem toChar_spec {d : Nat} (h : d < 10) :
    (toChar d).isDigit = true ∧ (toChar d).toNat - '0'.toNat = d := by
  have hall : ∀ d < 10, (toChar d).isDigit = true ∧ (toChar d).toNat - '0'.toNat = d := by decide
  exact hall d h

theorem value_append (ds : List Char) (d : Char) :
    value (ds ++ [d]) = 10 * value ds + (d.toNat - '0'.toNat) := by
  simp only [value, List.foldl_append, List.foldl_cons, List.foldl_nil]

theorem mem_decimal {n : Nat} {c : Char} (h : c ∈ decimal n) : ∃ d < 10, c = toChar d := by
  fun_induction decimal n with
  | case1 n hlt => exact ⟨n, hlt, List.mem_singleton.1 h⟩
  | case2 n hge ih =>
    rcases List.mem_append.1 h with h | h
    · exact ih h
    · exact ⟨n % 10, Nat.mod_lt n (by decide), List.mem_singleton.1 h⟩

theorem mem_fixed {b width n : Nat} {c : Char} (hb : 0 < b) (h : c ∈ fixed b width n) :
    ∃ d < b, c = toChar d := by
  induction width generalizing n with
  | zero => cases h
  | succ width ih =>
    rcases List.mem_append.1 h with h | h
    · exact ih h
    · exact ⟨n % b, Nat.mod_lt n hb, List.mem_singleton.1 h⟩

theorem isDigit_decimal (n : Nat) : ∀ ch ∈ decimal n, ch.isDigit = true := by
  intro ch hch
  obtain ⟨d, hd, rfl⟩ := mem_decimal hch
  exact (toChar_spec hd).1

theorem exists_decimal_eq_cons (n : Nat) :
    ∃ ch ds, decimal n = ch :: ds ∧ ch.isDigit = true := by
  obtain ⟨ch, ds, heq⟩ := List.exists_cons_of_ne_nil (decimal_ne_nil n)
  have hmem : ch ∈ decimal n := by
    rw [heq]
    exact List.mem_cons_self
  exact ⟨ch, ds, heq, isDigit_decimal n ch hmem⟩

/-- Only zero begins with a zero. -/
theorem eq_zero_of_head_decimal {n : Nat} (h : (decimal n).head? = some '0') : n = 0 := by
  fun_induction decimal n with
  | case1 n hlt =>
    have hdigit := (toChar_spec hlt).2
    rw [Option.some.inj h] at hdigit
    exact hdigit.symm
  | case2 n hge ih =>
    obtain ⟨ch, ds, heq, -⟩ := exists_decimal_eq_cons (n / 10)
    rw [heq] at h ih
    have hzero := ih h
    omega

theorem value_decimal (n : Nat) : value (decimal n) = n := by
  fun_induction decimal n with
  | case1 n h => simpa [value] using (toChar_spec h).2
  | case2 n h ih =>
    rw [value_append, ih, (toChar_spec (Nat.mod_lt n (by decide))).2]
    omega

end Digits

end Descent
