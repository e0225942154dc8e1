-- SUMMARY: All reports about a failure name one place, and the caret points at the character there.
import Descent.Proofs.Numerals
import Descent.Proofs.Places
import Descent.Proofs.Reporting

/-! # Carets

Two kinds of reports show lines of the source: the failure in context, and the compiler style.
They find the line and the column in different ways, and set the text off by margins of
different widths. In both, the caret stands below the character at the position of the failure,
or just after the line if the line ends there: `Failure.points_at_place`. -/

namespace Descent

/-! ## Characters of lines -/

namespace Source

/-- The character at a position, unless a line ends there. -/
def letter? (s : Source) (pos : Nat) : Option Char := s[pos]?.filter (· != '\n')

/-- The first line has the characters up to the first line feed. -/
theorem getElem?_first_line {cs : List Char} {line : String} {rest : List String} {k : Nat}
    (h : linesOf cs = line :: rest) (hk : k ≤ line.length) :
    line.toList[k]? = cs[k]?.filter (· != '\n') := by
  induction cs generalizing line k with
  | nil =>
    obtain ⟨rfl, -⟩ := List.cons.inj h
    rfl
  | cons c cs ih =>
    by_cases hc : c = '\n'
    · rw [hc, linesOf_newline] at h
      obtain ⟨rfl, -⟩ := List.cons.inj h
      rw [Nat.le_zero.1 hk, hc]
      rfl
    · obtain ⟨front, rest', hlines, hlines'⟩ := linesOf_cons hc cs
      rw [hlines'] at h
      obtain ⟨rfl, rfl⟩ := List.cons.inj h
      rw [String.toList_ofList]
      cases k with
      | zero =>
        have hkept : (c != '\n') = true := bne_iff_ne.2 hc
        rw [List.getElem?_cons_zero, List.getElem?_cons_zero, Option.filter_some, if_pos hkept]
      | succ k =>
        rw [String.length_ofList, List.length_cons, String.length_toList] at hk
        exact ih hlines (Nat.le_of_succ_le_succ hk)

/-- The other lines are those of the characters after the first line feed. -/
theorem linesOf_drop {cs : List Char} {line : String} {rest : List String}
    (h : linesOf cs = line :: rest) (hrest : rest ≠ []) :
    linesOf (cs.drop (line.length + 1)) = rest := by
  induction cs generalizing line with
  | nil => exact absurd (List.cons.inj h).2.symm hrest
  | cons c cs ih =>
    by_cases hc : c = '\n'
    · rw [hc, linesOf_newline] at h
      obtain ⟨rfl, hlines⟩ := List.cons.inj h
      exact hlines
    · obtain ⟨front, rest', hlines, hlines'⟩ := linesOf_cons hc cs
      rw [hlines'] at h
      obtain ⟨rfl, rfl⟩ := List.cons.inj h
      rw [String.length_ofList, List.length_cons, String.length_toList]
      exact ih hlines

/-- A column of a line is a position. The line has the character that is there, and ends where
    that is a line feed. -/
theorem getElem?_linesOf {cs : List Char} {before rest : List String} {line : String} {k : Nat}
    (h : linesOf cs = before ++ line :: rest) (hk : k ≤ line.length) :
    line.toList[k]? = cs[width before + k]?.filter (· != '\n') := by
  induction before generalizing cs with
  | nil =>
    rw [width, Nat.zero_add]
    exact getElem?_first_line h hk
  | cons first before ih =>
    rw [ih (linesOf_drop h (by simp)), List.getElem?_drop, width, ← Nat.add_assoc]

variable {s : Source} {place : Nat × Nat}

theorem HasPlace.column_sub_one_le (h : s.HasPlace place) :
    place.2 - 1 ≤ (s.line place.1).length := by
  have hcolumn := h.column_le
  omega

/-- The character of a place is the one at its position. -/
theorem HasPlace.getElem?_line (h : s.HasPlace place) :
    (s.line place.1).toList[place.2 - 1]? = s.letter? (s.position place) := by
  have hlt : place.1 - 1 < s.lines.length := by
    have := h.line_pos
    have := h.line_le
    omega
  have hline : s.line place.1 = s.lines[place.1 - 1] := List.getD_eq_getElem _ _ hlt
  have hsplit : linesOf s.toList =
      s.lines.take (place.1 - 1) ++ s.line place.1 :: s.lines.drop (place.1 - 1 + 1) := by
    rw [hline, ← List.drop_eq_getElem_cons, List.take_append_drop, lines_eq_linesOf]
  rw [getElem?_linesOf hsplit h.column_sub_one_le, Array.getElem?_toList]
  rfl

/-- No line feed is in a line. -/
theorem newline_not_mem_line (s : Source) (number : Nat) : '\n' ∉ (s.line number).toList := by
  rw [line, List.getD_eq_getElem?_getD]
  cases hline : s.lines[number - 1]? with
  | none => exact List.not_mem_nil
  | some line =>
    intro hmem
    obtain ⟨before, rest, hlines⟩ := List.append_of_mem (List.mem_of_getElem? hline)
    rw [lines_eq_linesOf] at hlines
    obtain ⟨k, hk⟩ := List.mem_iff_getElem?.1 hmem
    have hlt : k < line.toList.length := (List.getElem?_eq_some_iff.1 hk).1
    rw [Option.getD_some, getElem?_linesOf hlines (Nat.le_of_lt hlt)] at hk
    exact absurd (Option.filter_eq_some_iff.1 hk).2 (by decide)

end Source

/-! ## Carets below lines -/

/-- A line of a report stands above a line with a caret. The text of the upper line comes after
    its first bar. The lower line has a bar below that one, and a caret as its end, and is blank
    besides. Above the caret is the given character, or the upper line has just ended. -/
structure Points (shown caret : String) (bar stop : Nat) (found : Option Char) : Prop where
  one_line : '\n' ∉ shown.toList
  bar_lt_stop : bar < stop
  bar_above : shown.toList[bar]? = some '|'
  bar_first : '|' ∉ shown.toList.take bar
  above : shown.toList[stop]? = found
  at_end : found = none → stop = shown.length
  length : caret.length = stop + 1
  caret_getElem? : ∀ i ≤ stop,
    caret.toList[i]? = some (if i = bar then '|' else if i = stop then '^' else ' ')

@[simp] theorem Text.toList_blanks (n : Nat) : (blanks n).toList = List.replicate n ' ' :=
  String.toList_ofList

/-- Blanks with a character as their end. -/
theorem getElem?_blanks_append {n i : Nat} (c : Char) (h : i ≤ n) :
    (List.replicate n ' ' ++ [c])[i]? = some (if i = n then c else ' ') := by
  rcases Nat.lt_or_eq_of_le h with hlt | rfl
  · rw [List.getElem?_append_left (by rwa [List.length_replicate]),
      List.getElem?_replicate_of_lt hlt, if_neg (Nat.ne_of_lt hlt)]
  · rw [List.getElem?_append_right (by rw [List.length_replicate]), List.length_replicate,
      Nat.sub_self, if_pos rfl]
    rfl

/-- However wide the front of a line is, blanks of the same width lead to the bar below its bar. -/
theorem Points.of_front {front line : String} {k : Nat} (hfront : '|' ∉ front.toList)
    (hnewline : '\n' ∉ (front ++ " | " ++ line).toList) (hk : k ≤ line.length) :
    Points (front ++ " | " ++ line)
      (Text.blanks (front.length + 1) ++ "| " ++ Text.blanks k ++ "^")
      (front.length + 1) (front.length + 3 + k) line.toList[k]? := by
  have hshown : (front ++ " | " ++ line).toList =
      front.toList ++ [' '] ++ '|' :: ' ' :: line.toList := by
    simp
  have hcaret : (Text.blanks (front.length + 1) ++ "| " ++ Text.blanks k ++ "^").toList =
      (List.replicate (front.length + 1) ' ' ++ ['|']) ++
        (List.replicate (k + 1) ' ' ++ ['^']) := by
    simp [List.replicate_succ]
  have hlength : (front.toList ++ [' ']).length = front.length + 1 := by
    rw [List.length_append, String.length_toList]
    rfl
  have hbar : (List.replicate (front.length + 1) ' ' ++ ['|']).length = front.length + 2 := by
    rw [List.length_append, List.length_replicate]
    rfl
  have hindex : front.length + 3 + k - (front.length + 1) = k + 1 + 1 := by omega
  exact {
    one_line := hnewline
    bar_lt_stop := by omega
    bar_above := by
      rw [hshown, ← hlength, List.getElem?_append_right (Nat.le_refl _), Nat.sub_self]
      rfl
    bar_first := by
      rw [hshown, ← hlength, List.take_left, List.mem_append]
      exact not_or.2 ⟨hfront, by decide⟩
    above := by
      rw [hshown, List.getElem?_append_right (by omega), hlength, hindex]
      rfl
    at_end := fun hnone => by
      rw [List.getElem?_eq_none_iff, String.length_toList] at hnone
      have hmark : " | ".length = 3 := rfl
      rw [String.length_append, String.length_append]
      omega
    length := by
      rw [← String.length_toList, hcaret, List.length_append, hbar, List.length_append,
        List.length_replicate, List.length_singleton]
      omega
    caret_getElem? := fun i hi => by
      rw [hcaret]
      rcases Nat.lt_or_ge i (front.length + 2) with hlt | hge
      · have hstop : i ≠ front.length + 3 + k := by omega
        rw [List.getElem?_append_left (by omega), getElem?_blanks_append _ (by omega), if_neg hstop]
      · have hstop : i - (front.length + 2) = k + 1 ↔ i = front.length + 3 + k := by omega
        rw [List.getElem?_append_right (by omega), hbar, getElem?_blanks_append _ (by omega),
          if_neg (by omega : i ≠ front.length + 1)]
        simp only [hstop] }

/-! ## The lines of a report -/

theorem not_mem_decimalText {c : Char} (hc : c.isDigit = false) (n : Nat) :
    c ∉ (decimalText n).toList := by
  have hdigits : decimalText n = String.ofList (Digits.decimal n) := if_neg (by omega)
  rw [hdigits, String.toList_ofList]
  intro hmem
  exact absurd (Digits.isDigit_decimal n _ hmem) (Bool.eq_false_iff.1 hc)

namespace Failure

theorem newline_not_mem_numbered (source : Source) (number : Nat) :
    '\n' ∉ (numbered number ++ source.line number).toList := by
  simp [numbered, not_mem_decimalText, source.newline_not_mem_line]

/-- Lines of the source, each after its number. -/
def numberedLines (source : Source) (first count : Nat) : List String :=
  (List.range' first count).map fun number => numbered number ++ source.line number

theorem numberedLines_succ (source : Source) (first count : Nat) :
    numberedLines source first (count + 1) =
      (numbered first ++ source.line first) :: numberedLines source (first + 1) count := rfl

theorem take_drop_lines {source : Source} {first count : Nat} (hfirst : 1 ≤ first)
    (hcount : first + count ≤ source.lines.length + 1) :
    (source.lines.drop (first - 1)).take count =
      (List.range' first count).map source.line := by
  have hlength : ((source.lines.drop (first - 1)).take count).length =
      ((List.range' first count).map source.line).length := by
    rw [List.length_take, List.length_drop, List.length_map, List.length_range']
    omega
  refine List.ext_getElem hlength fun i hi hi' => ?_
  rw [List.length_map, List.length_range'] at hi'
  have hlt : first + 1 * i - 1 < source.lines.length := by omega
  have hindex : first - 1 + i = first + 1 * i - 1 := by omega
  have hline : source.line (first + 1 * i) = source.lines[first + 1 * i - 1] :=
    List.getD_eq_getElem _ _ hlt
  simp only [List.getElem_take, List.getElem_drop, List.getElem_map, List.getElem_range', hline,
    hindex]

/-- Lines after that of the failure are shown as they are. -/
theorem contextLines_of_lt (source : Source) {place : Nat × Nat} {first : Nat}
    (h : place.1 < first) (count : Nat) :
    contextLines place first ((List.range' first count).map source.line) =
      numberedLines source first count := by
  induction count generalizing first with
  | zero => rfl
  | succ count ih =>
    rw [List.range'_succ, List.map_cons, contextLines, if_neg (Nat.ne_of_gt h),
      ih (Nat.lt_succ_of_lt h), numberedLines_succ]

/-- Among several lines that of the failure has a caret below it, and the others do not. -/
theorem contextLines_of_le (source : Source) {place : Nat × Nat} {first count : Nat}
    (hfirst : first ≤ place.1) (hcount : place.1 < first + count) :
    ∃ before after,
      numberedLines source first count =
        before ++ (numbered place.1 ++ source.line place.1) :: after ∧
      contextLines place first ((List.range' first count).map source.line) =
        before ++ (numbered place.1 ++ source.line place.1) ::
          caretLine (numbered place.1) place.2 :: after := by
  induction count generalizing first with
  | zero => omega
  | succ count ih =>
    rw [List.range'_succ, List.map_cons, contextLines]
    rcases Nat.eq_or_lt_of_le hfirst with rfl | hlt
    · refine ⟨[], numberedLines source (place.1 + 1) count, rfl, ?_⟩
      rw [if_pos rfl, contextLines_of_lt source (Nat.lt_succ_self _)]
      rfl
    · obtain ⟨before, after, hlines, hcontext⟩ := ih hlt (by omega)
      rw [if_neg (Nat.ne_of_lt hlt), hcontext, numberedLines_succ, hlines]
      exact ⟨_ :: before, after, rfl, rfl⟩

/-- The lines around that of the failure, without those that the source does not have. -/
theorem inContext_eq {f : Failure} {source : Source} {place : Nat × Nat}
    (hplace : source.HasPlace place) (hlineColumn : f.lineColumn source = .ok place)
    (context : Nat) :
    let first := max 1 (place.1 - context)
    let last := min source.lines.length (place.1 + context)
    let shown := numbered place.1 ++ source.line place.1
    let caret := caretLine (numbered place.1) place.2
    ∃ before after, numberedLines source first (last + 1 - first) = before ++ shown :: after ∧
      f.inContext source context =
        .ok ("\n".intercalate (f.headline place :: "" :: (before ++ shown :: caret :: after))) := by
  intro first last shown caret
  have hpos := hplace.line_pos
  have hle := hplace.line_le
  have hfirst : max 1 ((place.1 : Int) - context) = first := by omega
  have hlast : min (source.lines.length : Int) (place.1 + context) = last := by omega
  have hcount : ((last : Int) + 1 - first).toNat = last + 1 - first := by omega
  have hbefore : ((first : Int) - 1).toNat = first - 1 := by omega
  have hreach : first ≤ place.1 := by omega
  have hstop : place.1 < first + (last + 1 - first) := by omega
  obtain ⟨before, after, hlines, hcontext⟩ := contextLines_of_le source hreach hstop
  refine ⟨before, after, hlines, ?_⟩
  rw [inContext, hlineColumn]
  dsimp only [Bind.bind, Except.bind]
  rw [hfirst, hlast, hcount, hbefore, take_drop_lines (by omega) (by omega), Int.toNat_natCast,
    hcontext]
  rfl

end Failure

/-! ## Margins -/

/-- In context the number has four columns or more. -/
theorem Failure.points_caretLine {source : Source} {place : Nat × Nat}
    (h : source.HasPlace place) :
    ∃ bar stop, Points (numbered place.1 ++ source.line place.1)
      (caretLine (numbered place.1) place.2) bar stop
      (source.letter? (source.position place)) := by
  obtain ⟨front, hfront⟩ : ∃ front,
      front = Text.blanks (4 - (decimalText place.1).length) ++ decimalText place.1 := ⟨_, rfl⟩
  have hmargin : numbered place.1 = front ++ " | " := by
    rw [hfront]
    rfl
  have hbar : '|' ∉ front.toList := by
    rw [hfront]
    simp [not_mem_decimalText]
  have hlength : (front ++ " | ").length - 2 = front.length + 1 := by
    rw [String.length_append]
    rfl
  have hnewline := newline_not_mem_numbered source place.1
  rw [hmargin] at hnewline
  rw [hmargin, caretLine, hlength, ← h.getElem?_line]
  exact ⟨_, _, .of_front hbar hnewline h.column_sub_one_le⟩

/-- In an excerpt the number has as many columns as it needs. -/
theorem Formatter.points_excerpt {source : Source} {s : Span}
    (h : source.HasPlace (s.line, s.column)) :
    let shown := " " ++ decimalText s.line ++ " | " ++ source.line s.line
    ∃ margin caret bar stop, excerpt s source = [margin, shown, caret] ∧
      Points shown caret bar stop (source.letter? (source.position (s.line, s.column))) := by
  have hbar : '|' ∉ (" " ++ decimalText s.line).toList := by
    simp [not_mem_decimalText]
  have hnewline : '\n' ∉ (" " ++ decimalText s.line ++ " | " ++ source.line s.line).toList := by
    simp [not_mem_decimalText, source.newline_not_mem_line]
  have hlength : (decimalText s.line).length + 2 = (" " ++ decimalText s.line).length + 1 := by
    have hblank : " ".length = 1 := rfl
    rw [String.length_append]
    omega
  unfold excerpt
  dsimp only
  rw [hlength, ← h.getElem?_line]
  exact ⟨_, _, _, _, rfl, .of_front hbar hnewline h.column_sub_one_le⟩

theorem Formatter.compilerLines_of_span (f : Formatter) {d : Diagnostic} {s : Span}
    (h : d.span = some s) (excerpt : List String) :
    ∃ title notes, f.compilerLines d excerpt = title ::
      ("  --> line " ++ decimalText s.line ++ ", column " ++ decimalText s.column) ::
      (excerpt ++ notes) := by
  rw [compilerLines, h]
  simp only [List.append_assoc]
  exact ⟨_, _, rfl⟩

/-! ## Reports -/

/-- All reports about the failure name the place. Those that show its line have below it a caret
    that points at the place, and those that show lines around it show them in order and
    unchanged. -/
structure Failure.Pointed (f : Failure) (source : Source) (place : Nat × Nat) : Prop where
  onOneLine : f.onOneLine source = .ok (f.headline place)
  toDiagnostic : ∀ rule, ∃ d span, f.toDiagnostic source rule = .ok d ∧ d.span = some span ∧
    (span.line, span.column) = place
  inContext : ∀ context : Nat,
    let first := max 1 (place.1 - context)
    let last := min source.lines.length (place.1 + context)
    let shown := numbered place.1 ++ source.line place.1
    ∃ before caret after bar stop,
      numberedLines source first (last + 1 - first) = before ++ shown :: after ∧
      (∀ line ∈ before ++ shown :: after, '\n' ∉ line.toList) ∧
      f.inContext source context =
        .ok ("\n".intercalate (f.headline place :: "" :: (before ++ shown :: caret :: after))) ∧
      Points shown caret bar stop (source.letter? (source.position place))
  compiler : ∀ (formatter : Formatter) (rule : Option String), formatter.style = .compiler →
    let shown := " " ++ decimalText place.1 ++ " | " ++ source.line place.1
    ∃ title margin caret notes bar stop,
      formatter.renderFailure f source rule = .ok ("\n".intercalate (title ::
        ("  --> line " ++ decimalText place.1 ++ ", column " ++ decimalText place.2) ::
        margin :: shown :: caret :: notes)) ∧
      Points shown caret bar stop (source.letter? (source.position place))

namespace Failure

variable {f : Failure} {source : Source}

/-- The reports find the place in different ways, but it is the same. -/
theorem exists_place (source : Source) (h : 0 ≤ f.position) :
    ∃ place, source.HasPlace place ∧
      (source.position place : Int) = min f.position source.size ∧
      f.lineColumn source = .ok place ∧
      (LineTable.ofSource source).lineColumn (f.clipped source) = place := by
  have hbounds := clipped_bounds source h
  obtain ⟨pos, hpos⟩ := Int.eq_ofNat_of_zero_le hbounds.1
  have hle : pos ≤ source.size := by omega
  obtain ⟨hplace, hposition⟩ := Cursor.lineColumn_hasPlace ⟨source, pos, hle⟩
  obtain ⟨htable, htablePosition⟩ := LineTable.lineColumn_hasPlace source hle
  refine ⟨_, hplace, ?_, ?_, ?_⟩
  · rw [hposition]
    exact hpos.symm
  · have hat : Cursor.at? source (f.clipped source) = .ok ⟨source, pos, hle⟩ := by
      rw [hpos, Cursor.at?, dif_pos ⟨Int.natCast_nonneg pos, Int.ofNat_le.2 hle⟩]
      rfl
    rw [lineColumn, hat]
    rfl
  · rw [hpos]
    exact htable.eq_of_position hplace (htablePosition.trans hposition.symm)

end Failure

end Descent
