-- SUMMARY: The positions of a source and the places in its lines correspond, in the same order.
import Mathlib.Data.List.GetD
import Descent.Proofs.Lines

/-! # Places

A place is a line of a source and a column in that line or just after it, both counted from
one. The lines before it, each with its line feed, and the columns before it add up to a
position (`Source.position`). Of two places the one that comes first has the smaller position:
`position_lt_of_lex`. So a position has at most one place. That it has one is shown twice,
because there are two ways to find it: from the characters before the position, and by a
search in the table of line starts. -/

namespace Descent

namespace Source

/-! ## Lines of characters -/

/-- The lines that some characters make up. -/
def linesOf (cs : List Char) : List String := (cs.splitOn '\n').map String.ofList

theorem linesOf_newline (cs : List Char) : linesOf ('\n' :: cs) = "" :: linesOf cs := by
  rw [linesOf, List.splitOn_cons_eq_if_modifyHead, if_pos (beq_self_eq_true _)]
  rfl

/-- Any other character is put in front of the first line. -/
theorem linesOf_cons {c : Char} (h : c ≠ '\n') (cs : List Char) :
    ∃ line rest, linesOf cs = line :: rest ∧
      linesOf (c :: cs) = String.ofList (c :: line.toList) :: rest := by
  obtain ⟨line, rest, hlines⟩ := List.exists_cons_of_ne_nil (List.splitOn_ne_nil '\n' cs)
  have hc : (c == '\n') = false := beq_false_of_ne h
  refine ⟨.ofList line, rest.map .ofList, ?_, ?_⟩
  · rw [linesOf, hlines, List.map_cons]
  · rw [linesOf, List.splitOn_cons_eq_if_modifyHead, hc, hlines, String.toList_ofList]
    rfl

theorem linesOf_letter {c : Char} (h : c ≠ '\n') (cs : List Char) :
    ∃ line line' rest, linesOf cs = line :: rest ∧ linesOf (c :: cs) = line' :: rest ∧
      line'.length = line.length + 1 := by
  obtain ⟨line, rest, hlines, hlines'⟩ := linesOf_cons h cs
  refine ⟨line, _, rest, hlines, hlines', ?_⟩
  rw [String.length_ofList, List.length_cons, String.length_toList]

/-- A line feed ends the lines before it. -/
theorem linesOf_append (before after : List Char) :
    linesOf (before ++ '\n' :: after) = linesOf before ++ linesOf after := by
  rw [linesOf, List.splitOn_append_cons_self, List.map_append]
  rfl

theorem lines_eq_linesOf (s : Source) : s.lines = linesOf s.toList := by
  have hfold (cs : List Char) : cs.foldr lineStep [[]] = cs.splitOn '\n' := by
    induction cs with
    | nil => rfl
    | cons c cs ih =>
      rw [List.foldr_cons, ih, List.splitOn_cons_eq_if_modifyHead]
      unfold lineStep
      simp only [beq_iff_eq]
      split
      · rfl
      · obtain ⟨line, rest, hlines⟩ := List.exists_cons_of_ne_nil (List.splitOn_ne_nil '\n' cs)
        rw [hlines]
        rfl
  rw [lines, ← Array.foldr_toList, hfold, linesOf]

theorem length_linesOf (cs : List Char) : (linesOf cs).length = cs.count '\n' + 1 := by
  have hlength := length_lines cs.toArray
  rw [lines_eq_linesOf] at hlength
  exact hlength

/-- A text without line feeds is the front of the first line that it is in. -/
theorem exists_linesOf_append {t : List Char} (ht : '\n' ∉ t) (after : List Char) :
    ∃ line rest, linesOf (t ++ after) = line :: rest ∧ t.length ≤ line.length := by
  induction t with
  | nil =>
    obtain ⟨line, rest, hlines⟩ : ∃ line rest, linesOf after = line :: rest := by
      refine List.exists_cons_of_ne_nil (List.ne_nil_of_length_pos ?_)
      rw [length_linesOf]
      exact Nat.succ_pos _
    exact ⟨line, rest, hlines, Nat.zero_le _⟩
  | cons c t ih =>
    obtain ⟨hc, ht⟩ := not_or.1 (mt List.mem_cons.2 ht)
    obtain ⟨line, rest, hlines, hle⟩ := ih ht
    obtain ⟨_, line', _, heq, hlines', hlength⟩ := linesOf_letter (Ne.symm hc) (t ++ after)
    cases hlines.symm.trans heq
    refine ⟨line', rest, hlines', ?_⟩
    rw [hlength]
    exact Nat.succ_le_succ hle

/-- Characters without line feeds are passed over from behind. -/
theorem takeWhile_reverse_append {t : List Char} (ht : '\n' ∉ t) (cs : List Char) :
    (t.reverse ++ cs).takeWhile (· != '\n') = t.reverse ++ cs.takeWhile (· != '\n') := by
  refine List.takeWhile_append_of_pos fun ch hch => ?_
  rw [List.mem_reverse] at hch
  exact bne_iff_ne.2 fun heq => ht (heq ▸ hch)

/-- The last occurrence of a character. -/
theorem exists_last_mem {ch : Char} {cs : List Char} (h : ch ∈ cs) :
    ∃ u t, cs = u ++ ch :: t ∧ ch ∉ t := by
  obtain ⟨t, u, hreverse, ht⟩ := List.eq_append_cons_of_mem (List.mem_reverse.2 h)
  refine ⟨u.reverse, t.reverse, ?_, mt List.mem_reverse.1 ht⟩
  rw [← List.reverse_reverse cs, hreverse, List.reverse_append, List.reverse_cons,
    List.append_assoc, List.singleton_append]

/-! ## Widths -/

/-- How many characters several lines have, each with its line feed. -/
def width : List String → Nat
  | [] => 0
  | line :: lines => line.length + 1 + width lines

theorem width_append (lines lines' : List String) :
    width (lines ++ lines') = width lines + width lines' := by
  induction lines with
  | nil => rw [List.nil_append, width, Nat.zero_add]
  | cons line lines ih =>
    rw [List.cons_append, width, width, ih]
    omega

/-- All characters are in the lines, and the last line has no line feed of its own. -/
theorem width_linesOf (cs : List Char) : width (linesOf cs) = cs.length + 1 := by
  induction cs with
  | nil => rfl
  | cons c cs ih =>
    by_cases hc : c = '\n'
    · rw [hc, linesOf_newline, width, ih, String.length_empty, List.length_cons]
      omega
    · obtain ⟨line, line', rest, hlines, hlines', hlength⟩ := linesOf_letter hc cs
      rw [hlines, width] at ih
      rw [hlines', width, hlength, List.length_cons]
      omega

theorem width_lines (s : Source) : width s.lines = s.size + 1 := by
  rw [lines_eq_linesOf, width_linesOf, Array.length_toList]

theorem width_take_mono (lines : List String) {i j : Nat} (h : i ≤ j) :
    width (lines.take i) ≤ width (lines.take j) := by
  obtain ⟨k, rfl⟩ := Nat.le.dest h
  rw [List.take_add, width_append]
  exact Nat.le_add_right _ _

theorem width_take_line (s : Source) {number : Nat} (hpos : 1 ≤ number)
    (hle : number ≤ s.lines.length) :
    width (s.lines.take number) =
      width (s.lines.take (number - 1)) + ((s.line number).length + 1) := by
  obtain ⟨k, rfl⟩ := Nat.exists_eq_add_of_le' hpos
  have hk : k < s.lines.length := hle
  have hline : s.line (k + 1) = s.lines[k] := by
    rw [line, Nat.add_sub_cancel, List.getD_eq_getElem _ _ hk]
  rw [List.take_succ_eq_append_getElem hk, width_append, hline, width, Nat.add_sub_cancel]
  rfl

/-! ## Places and positions -/

/-- The place is in a line of the source or just after it. -/
structure HasPlace (s : Source) (place : Nat × Nat) : Prop where
  line_pos : 1 ≤ place.1
  line_le : place.1 ≤ s.lines.length
  column_pos : 1 ≤ place.2
  column_le : place.2 ≤ (s.line place.1).length + 1

/-- The position of a place: the lines before it, each with its line feed, and the columns
    before it. -/
def position (s : Source) (place : Nat × Nat) : Nat :=
  width (s.lines.take (place.1 - 1)) + (place.2 - 1)

section Places

variable {s : Source} {a b : Nat × Nat}

/-- A place comes before the end of its line, line feed included. -/
theorem HasPlace.position_lt (h : s.HasPlace a) : s.position a < width (s.lines.take a.1) := by
  have hcolumn := h.column_le
  have hpos := h.column_pos
  rw [width_take_line s h.line_pos h.line_le, position]
  omega

theorem HasPlace.position_le (h : s.HasPlace a) : s.position a ≤ s.size := by
  have hlt := h.position_lt
  have hall := width_take_mono s.lines h.line_le
  rw [List.take_length, width_lines] at hall
  omega

/-- Of two places the one that comes first has the smaller position. -/
theorem HasPlace.position_lt_of_lex (ha : s.HasPlace a) (h : Prod.Lex (· < ·) (· < ·) a b) :
    s.position a < s.position b := by
  rcases Prod.lex_def.1 h with hline | ⟨hline, hcolumn⟩
  · have hlt := ha.position_lt
    have hmono := width_take_mono s.lines (Nat.le_sub_one_of_lt hline)
    exact Nat.lt_of_lt_of_le hlt (Nat.le_add_right_of_le hmono)
  · have hpos := ha.column_pos
    rw [position, position, hline]
    omega

/-- Places are in the order of their positions. -/
theorem HasPlace.lex_iff (ha : s.HasPlace a) (hb : s.HasPlace b) :
    Prod.Lex (· < ·) (· < ·) a b ↔ s.position a < s.position b := by
  refine ⟨ha.position_lt_of_lex, fun hlt => ?_⟩
  have hnot : ¬ Prod.Lex (· < ·) (· < ·) b a := fun hba =>
    Nat.lt_asymm hlt (hb.position_lt_of_lex hba)
  have hne : a ≠ b := by
    rintro rfl
    exact Nat.lt_irrefl _ hlt
  rw [Prod.lex_def] at hnot ⊢
  have hne' : a.1 = b.1 → a.2 ≠ b.2 := fun h₁ h₂ => hne (Prod.ext h₁ h₂)
  omega

/-- A position has at most one place. -/
theorem HasPlace.eq_of_position (ha : s.HasPlace a) (hb : s.HasPlace b)
    (h : s.position a = s.position b) : a = b := by
  have hab := (ha.lex_iff hb).not.2 (Nat.not_lt.2 (Nat.le_of_eq h.symm))
  have hba := (hb.lex_iff ha).not.2 (Nat.not_lt.2 (Nat.le_of_eq h))
  rw [Prod.lex_def] at hab hba
  exact Prod.ext (by omega) (by omega)

/-- The place after some lines and some columns of the next one. -/
theorem hasPlace_of_lines {before rest : List String} {line : String} {k : Nat}
    (h : s.lines = before ++ line :: rest) (hk : k ≤ line.length) :
    s.HasPlace (before.length + 1, k + 1) ∧
      s.position (before.length + 1, k + 1) = width before + k := by
  have hline : s.line (before.length + 1) = line := by
    rw [Source.line, h, Nat.add_sub_cancel, List.getD_append_right _ _ _ _ (Nat.le_refl _),
      Nat.sub_self]
    rfl
  have hle : before.length + 1 ≤ s.lines.length := by
    rw [h, List.length_append, List.length_cons]
    omega
  refine ⟨⟨Nat.le_add_left _ _, hle, Nat.le_add_left _ _, ?_⟩, ?_⟩
  · rw [hline]
    exact Nat.succ_le_succ hk
  · rw [position, h, Nat.add_sub_cancel, Nat.add_sub_cancel, List.take_left]

end Places

end Source

/-! ## The characters before a position -/

/-- The characters before a cursor, the last line feed among them being taken out: the lines
    before it are those of the characters up to there, and the columns are those after it. -/
theorem Cursor.lineColumn_eq (c : Cursor) :
    ∃ before line rest k, c.source.lines = before ++ line :: rest ∧ k ≤ line.length ∧
      c.lineColumn = (before.length + 1, k + 1) ∧ Source.width before + k = c.pos := by
  obtain ⟨front, hfront⟩ : ∃ front, (c.source.extract 0 c.pos).toList = front := ⟨_, rfl⟩
  have hsource : c.source.toList = front ++ c.rest := by
    rw [← hfront, Array.toList_extract, List.extract_eq_take_drop]
    exact (List.take_append_drop c.pos _).symm
  have hlength : front.length = c.pos := by
    rw [← hfront, Array.length_toList, Array.size_extract, Nat.min_eq_left c.pos_le]
    rfl
  rw [lineColumn, hfront, Source.lines_eq_linesOf, hsource, ← hlength]
  by_cases hnewline : '\n' ∈ front
  · obtain ⟨u, t, rfl, ht⟩ := Source.exists_last_mem hnewline
    obtain ⟨line, rest, hlines, hle⟩ := Source.exists_linesOf_append ht c.rest
    refine ⟨Source.linesOf u, line, rest, t.length, ?_, hle, ?_, ?_⟩
    · rw [List.append_assoc, List.cons_append, Source.linesOf_append, hlines]
    · have htake := Source.takeWhile_reverse_append ht ('\n' :: u.reverse)
      rw [List.takeWhile_cons_of_neg (by decide), List.append_nil] at htake
      rw [List.count_append, List.count_cons_self, List.count_eq_zero.2 ht,
        Source.length_linesOf, List.reverse_append, List.reverse_cons, List.append_assoc,
        List.singleton_append, htake, List.length_reverse]
    · rw [Source.width_linesOf, List.length_append, List.length_cons]
      omega
  · obtain ⟨line, rest, hlines, hle⟩ := Source.exists_linesOf_append hnewline c.rest
    refine ⟨[], line, rest, front.length, hlines, hle, ?_, Nat.zero_add _⟩
    have htake := Source.takeWhile_reverse_append hnewline []
    rw [List.append_nil, List.takeWhile_nil, List.append_nil] at htake
    rw [List.count_eq_zero.2 hnewline, htake, List.length_reverse]
    rfl

theorem Cursor.lineColumn_hasPlace (c : Cursor) :
    c.source.HasPlace c.lineColumn ∧ c.source.position c.lineColumn = c.pos := by
  obtain ⟨before, line, rest, k, hlines, hk, heq, hpos⟩ := c.lineColumn_eq
  obtain ⟨hplace, hposition⟩ := Source.hasPlace_of_lines hlines hk
  rw [heq, hposition]
  exact ⟨hplace, hpos⟩

/-! ## The table of line starts -/

namespace LineTable

/-- A line starts after the lines before it. -/
theorem startsFrom_getD (i : Nat) (cs : List Char) {k : Nat}
    (hk : k < (Source.linesOf cs).length) :
    (i :: startsFrom i cs).getD k 0 = i + Source.width ((Source.linesOf cs).take k) := by
  induction cs generalizing i k with
  | nil =>
    have hzero : k = 0 := Nat.lt_one_iff.1 hk
    subst hzero
    rfl
  | cons c cs ih =>
    cases k with
    | zero => rfl
    | succ k =>
      rw [List.getD_cons_succ, startsFrom]
      by_cases hc : c = '\n'
      · subst hc
        rw [Source.linesOf_newline, List.length_cons] at hk
        rw [if_pos rfl, ih _ (Nat.lt_of_succ_lt_succ hk), Source.linesOf_newline,
          List.take_succ_cons, Source.width, String.length_empty]
        omega
      · obtain ⟨line, line', rest, hlines, hlines', hlength⟩ := Source.linesOf_letter hc cs
        rw [hlines'] at hk
        have hnext := ih (i + 1) (k := k + 1) (by rw [hlines]; exact hk)
        rw [List.getD_cons_succ, hlines, List.take_succ_cons, Source.width] at hnext
        rw [if_neg hc, hnext, hlines', List.take_succ_cons, Source.width, hlength]
        omega

theorem starts_getD (s : Source) {k : Nat} (hk : k < s.lines.length) :
    (ofSource s).starts.getD k 0 = Source.width (s.lines.take k) := by
  rw [Source.lines_eq_linesOf] at hk ⊢
  have hstart := startsFrom_getD 0 s.toList hk
  rw [Nat.zero_add, ← starts_ofSource] at hstart
  rw [← hstart]
  simp

/-- The search ends at the first entry above the number. -/
theorem search_spec {xs : Array Nat} {x : Nat}
    (hsorted : ∀ i j, i ≤ j → j < xs.size → xs.getD i 0 ≤ xs.getD j 0) {lo hi : Nat}
    (hhi : hi ≤ xs.size) (hle : lo ≤ hi) (hbelow : ∀ i < lo, xs.getD i 0 ≤ x)
    (habove : ∀ i, hi ≤ i → i < xs.size → x < xs.getD i 0) :
    (∀ i < search xs x lo hi, xs.getD i 0 ≤ x) ∧
      ∀ i, search xs x lo hi ≤ i → i < xs.size → x < xs.getD i 0 := by
  fun_induction search xs x lo hi with
  | case1 lo hi hlt mid hmid ih =>
    refine ih hhi (by omega) (fun i hi' => ?_) habove
    exact Nat.le_trans (hsorted i mid (by omega) (by omega)) hmid
  | case2 lo hi hlt mid hmid ih =>
    refine ih (by omega) (by omega) hbelow (fun i hi' hsize => ?_)
    exact Nat.lt_of_lt_of_le (Nat.not_le.1 hmid) (hsorted mid i hi' hsize)
  | case3 lo hi hge =>
    have heq : lo = hi := by omega
    subst heq
    exact ⟨hbelow, habove⟩

theorem starts_sorted (s : Source) (i j : Nat) (hij : i ≤ j) (hj : j < (ofSource s).starts.size) :
    (ofSource s).starts.getD i 0 ≤ (ofSource s).starts.getD j 0 := by
  rw [size_starts] at hj
  rw [starts_getD s hj, starts_getD s (Nat.lt_of_le_of_lt hij hj)]
  exact Source.width_take_mono s.lines hij

/-- The line that the table finds is the one that the position is in. -/
theorem lineColumn_eq (s : Source) {pos : Nat} (h : pos ≤ s.size) :
    ∃ line, (ofSource s).lineColumn pos = (line, pos - Source.width (s.lines.take (line - 1)) + 1) ∧
      1 ≤ line ∧ line ≤ s.lines.length ∧ Source.width (s.lines.take (line - 1)) ≤ pos ∧
      pos < Source.width (s.lines.take line) := by
  obtain ⟨hpos, hle, -⟩ := lineColumn_ofSource s pos
  obtain ⟨hbelow, habove⟩ := search_spec (x := pos) (starts_sorted s) (Nat.le_refl _)
    (Nat.zero_le _) (fun i hi => absurd hi (Nat.not_lt_zero i))
    (fun i hi hsize => absurd hsize (Nat.not_lt.2 hi))
  have hclamp : min (pos : Int).toNat (ofSource s).size = pos := Nat.min_eq_left h
  rw [lineColumn, hclamp] at hpos hle ⊢
  generalize search (ofSource s).starts pos 0 (ofSource s).starts.size = line at *
  dsimp only at hpos hle
  have hstart := starts_getD s (k := line - 1) (by omega)
  refine ⟨line, by rw [hstart], hpos, hle, ?_, ?_⟩
  · rw [← hstart]
    exact hbelow _ (by omega)
  · rcases Nat.lt_or_eq_of_le hle with hlt | heq
    · rw [← starts_getD s hlt]
      exact habove _ (Nat.le_refl _) (by rw [size_starts]; exact hlt)
    · rw [heq, List.take_length, Source.width_lines]
      exact Nat.lt_succ_of_le h

/-- The table gives a position a place that has this position. -/
theorem lineColumn_hasPlace (s : Source) {pos : Nat} (h : pos ≤ s.size) :
    s.HasPlace ((ofSource s).lineColumn pos) ∧
      s.position ((ofSource s).lineColumn pos) = pos := by
  obtain ⟨line, heq, hpos, hle, hstart, hend⟩ := lineColumn_eq s h
  rw [Source.width_take_line s hpos hle] at hend
  rw [heq]
  refine ⟨⟨hpos, hle, Nat.le_add_left _ _, ?_⟩, ?_⟩
  · dsimp only
    omega
  · rw [Source.position]
    dsimp only
    omega

/-- A position outside the source is moved to its nearest end. -/
theorem lineColumn_clamp (s : Source) (pos : Int) :
    (ofSource s).lineColumn pos = (ofSource s).lineColumn (max 0 (min pos s.size)) := by
  have hclamp : min (max 0 (min pos (s.size : Int))).toNat (ofSource s).size =
      min pos.toNat (ofSource s).size := by
    change min _ s.size = min _ s.size
    omega
  rw [lineColumn, lineColumn, hclamp]

end LineTable

/-! ## The correspondence -/

/-- Both ways to find the place of a position give the only place of the source that has this
    position. Each place of the source is that of a position, and places are in the order of
    their positions. Outside the source the table gives the place of the nearest end. -/
theorem Source.place_correspondence (s : Source) :
    (∀ (pos : Nat) (h : pos ≤ s.size), let place := Cursor.lineColumn ⟨s, pos, h⟩
      (LineTable.ofSource s).lineColumn pos = place ∧ s.HasPlace place ∧ s.position place = pos ∧
        ∀ place', s.HasPlace place' → s.position place' = pos → place' = place) ∧
    (∀ place, s.HasPlace place →
      ∃ (pos : Nat) (h : pos ≤ s.size), Cursor.lineColumn ⟨s, pos, h⟩ = place) ∧
    (∀ (pos pos' : Nat) (h : pos ≤ s.size) (h' : pos' ≤ s.size), pos < pos' ↔
      Prod.Lex (· < ·) (· < ·) (Cursor.lineColumn ⟨s, pos, h⟩) (Cursor.lineColumn ⟨s, pos', h'⟩)) ∧
    ∀ pos : Int, (LineTable.ofSource s).lineColumn pos =
      (LineTable.ofSource s).lineColumn (max 0 (min pos s.size)) := by
  refine ⟨fun pos h => ?_, fun place hplace => ?_, fun pos pos' h h' => ?_,
    LineTable.lineColumn_clamp s⟩
  · obtain ⟨hplace, hposition⟩ := Cursor.lineColumn_hasPlace ⟨s, pos, h⟩
    obtain ⟨htable, htablePosition⟩ := LineTable.lineColumn_hasPlace s h
    have hunique : ∀ place', s.HasPlace place' → s.position place' = pos →
        place' = Cursor.lineColumn ⟨s, pos, h⟩ :=
      fun place' h₁ h₂ => h₁.eq_of_position hplace (h₂.trans hposition.symm)
    exact ⟨hunique _ htable htablePosition, hplace, hposition, hunique⟩
  · refine ⟨s.position place, hplace.position_le, ?_⟩
    obtain ⟨hfound, hposition⟩ := Cursor.lineColumn_hasPlace ⟨s, _, hplace.position_le⟩
    exact hfound.eq_of_position hplace hposition
  · obtain ⟨hplace, hposition⟩ := Cursor.lineColumn_hasPlace ⟨s, pos, h⟩
    obtain ⟨hplace', hposition'⟩ := Cursor.lineColumn_hasPlace ⟨s, pos', h'⟩
    rw [hplace.lex_iff hplace', hposition, hposition']

/-- An empty line, and the place after the last line feed. -/
theorem Source.place_correspondence_trailing :
    let s : Source := #['a', '\n', '\n', 'b', '\n']
    let table := LineTable.ofSource s
    table.lineColumn 1 = (1, 2) ∧ table.lineColumn 2 = (2, 1) ∧ table.lineColumn 9 = (4, 1) ∧
      (∀ place, s.HasPlace place → s.position place = 5 → place = (4, 1)) ∧
      ∃ (pos : Nat) (h : pos ≤ s.size), Cursor.lineColumn ⟨s, pos, h⟩ = (3, 2) := by
  intro s table
  obtain ⟨hplaces, honto, -, hclamp⟩ := Source.place_correspondence s
  refine ⟨(hplaces 1 (by decide)).1, (hplaces 2 (by decide)).1, ?_, ?_, ?_⟩
  · exact (hclamp 9).trans (hplaces 5 (by decide)).1
  · exact (hplaces 5 (by decide)).2.2.2
  · exact honto (3, 2) ⟨by decide, by decide, by decide, by decide⟩

end Descent
