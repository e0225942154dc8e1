-- SUMMARY: The table of line starts has an entry for each line, and look-ups stay inside it.
import Descent.Source.Lines

/-! # Lines and the table of their starts

A look-up in the table of line starts names a line that the source has, because the
table has as many entries as the source has lines and the first line starts at the
beginning of the source. -/

namespace Descent

namespace Source

theorem length_lineStep (c : Char) {lines : List (List Char)} (h : lines ≠ []) :
    (lineStep c lines).length = lines.length + if c = '\n' then 1 else 0 := by
  unfold lineStep
  split
  · rfl
  · cases lines with
    | nil => exact absurd rfl h
    | cons line rest => rfl

/-- A source has one line more than line feeds. -/
theorem length_lines (s : Source) : s.lines.length = s.toList.count '\n' + 1 := by
  have hfold (cs : List Char) :
      (cs.foldr lineStep [[]]).length = cs.count '\n' + 1 := by
    induction cs with
    | nil => rfl
    | cons c cs ih =>
      have hne : cs.foldr lineStep [[]] ≠ [] := by
        intro hnil
        rw [hnil] at ih
        cases ih
      rw [List.foldr_cons, length_lineStep c hne, ih, List.count_cons]
      simp only [beq_iff_eq]
      omega
  rw [lines, List.length_map, ← Array.foldr_toList, hfold]

end Source

namespace LineTable

/-- The starts of the lines that begin after one of some characters, the first of which
    is at `i`. -/
def startsFrom (i : Nat) : List Char → List Nat
  | [] => []
  | c :: cs => if c = '\n' then (i + 1) :: startsFrom (i + 1) cs else startsFrom (i + 1) cs

theorem length_startsFrom (i : Nat) (cs : List Char) :
    (startsFrom i cs).length = cs.count '\n' := by
  induction cs generalizing i with
  | nil => rfl
  | cons c cs ih =>
    rw [startsFrom, List.count_cons]
    split <;> simp_all

/-- Apart from the first, each line starts after a line feed. -/
theorem starts_ofSource (s : Source) :
    (ofSource s).starts.toList = 0 :: startsFrom 0 s.toList := by
  have hfold (cs : List Char) (acc : Array Nat) (i : Nat) :
      (cs.foldl (fun (acc : Array Nat × Nat) c => (push acc.1 acc.2 c, acc.2 + 1)) (acc, i)).1.toList
        = acc.toList ++ startsFrom i cs := by
    induction cs generalizing acc i with
    | nil => exact (List.append_nil _).symm
    | cons c cs ih =>
      rw [List.foldl_cons, ih, push, startsFrom]
      split
      · rw [Array.toList_push, List.append_assoc]
        rfl
      · rfl
  rw [ofSource, ← Array.foldl_toList, hfold]
  rfl

/-- The table has an entry for each line. -/
theorem size_starts (s : Source) : (ofSource s).starts.size = s.lines.length := by
  rw [← Array.length_toList, starts_ofSource, List.length_cons, length_startsFrom,
    Source.length_lines]

theorem search_bounds (xs : Array Nat) (x : Nat) {lo hi : Nat} (h : lo ≤ hi) :
    lo ≤ search xs x lo hi ∧ search xs x lo hi ≤ hi := by
  fun_induction search xs x lo hi with
  | case1 lo hi hlt mid hle ih =>
    have := ih (by omega)
    omega
  | case2 lo hi hlt mid hgt ih =>
    have := ih (by omega)
    omega
  | case3 lo hi hge => omega

/-- A first entry that is not above the number is passed over. -/
theorem search_pos {xs : Array Nat} {x hi : Nat} (hfirst : xs.getD 0 0 ≤ x) (h : 0 < hi) :
    0 < search xs x 0 hi := by
  induction hi using Nat.strongRecOn with
  | ind hi ih =>
    rw [search, if_pos h]
    dsimp only
    split
    · have hnext : (0 + hi) / 2 + 1 ≤ hi := by omega
      have := search_bounds xs x hnext
      omega
    · rename_i hgt
      have hmid : (0 + hi) / 2 ≠ 0 := by
        intro hzero
        rw [hzero] at hgt
        exact hgt hfirst
      exact ih _ (by omega) (by omega)

/-- A look-up names a line that the source has, and a column. -/
theorem lineColumn_ofSource (s : Source) (pos : Int) :
    1 ≤ ((ofSource s).lineColumn pos).1 ∧ ((ofSource s).lineColumn pos).1 ≤ s.lines.length ∧
      1 ≤ ((ofSource s).lineColumn pos).2 := by
  have hfirst : (ofSource s).starts.getD 0 0 = 0 := by
    have hstarts := starts_ofSource s
    rw [Array.getD_eq_getD_getElem?, ← Array.getElem?_toList, hstarts]
    rfl
  have hsize : 0 < (ofSource s).starts.size := by
    rw [size_starts, Source.length_lines]
    omega
  refine ⟨search_pos (by omega) hsize, ?_, Nat.le_add_left _ _⟩
  rw [← size_starts]
  exact (search_bounds _ _ (Nat.zero_le _)).2

end LineTable

end Descent
