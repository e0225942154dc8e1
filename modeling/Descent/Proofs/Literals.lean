-- SUMMARY: A text matches where its characters do one after the other, and both end at the same place.
import Descent.Proofs.Peg
import Descent.Proofs.Reading
import Descent.Proofs.SequenceTrees

/-! # Texts and their characters

A text is compared with what lies ahead at once, or character by character, by a sequence of
parsers of single characters. Either matches exactly where what is left of the source begins
with the text, and consumes the text. They differ in how they fail. The sequence gets as far as
the first character that is missing or another one. The text always fails where it began, and
says that the source is too short whenever it is, even if a character before its end is
another one already: `literal_spelled`. -/

namespace Descent

/-- To pass over a text is to pass over its first character and then over the others. -/
theorem Cursor.advance_cons_length (c : Cursor) (ch : Char) (cs : List Char) :
    (c.advance 1).advance cs.length = c.advance (ch :: cs).length := by
  rw [c.advance_advance (by omega) (by omega), List.length_cons]
  congr 1
  omega

namespace Parser

section Characters

variable {c : Cursor} {ch : Char} {cs : List Char} {t : String}

/-! ## Single characters -/

theorem run_char_of_rest (h : c.rest = ch :: cs) (env : Env) (s : State) :
    ((char ch).fn c).run env s = (.ok (.success (.letter ch) (c.advance 1)), s) := by
  have hhead : c.head? = some ch := Cursor.head?_of_rest h
  simp only [char, ofFn, Eval.run_pure, hhead, if_true, Value.letter]

theorem run_char_of_not_prefix (h : ¬ [ch] <+: c.rest) (env : Env) (s : State) :
    ∃ f, ((char ch).fn c).run env s = (.ok (.failure f), s) ∧ f.position = c.pos := by
  simp only [char, ofFn, Eval.run_pure]
  cases hhead : c.head? with
  | none => exact ⟨_, rfl, rfl⟩
  | some found =>
    have hne : found ≠ ch := by
      rintro rfl
      rw [Cursor.head?_eq] at hhead
      obtain ⟨rest, hrest⟩ := List.head?_eq_some_iff.1 hhead
      exact h ⟨rest, hrest.symm⟩
    simp only [if_neg hne]
    exact ⟨_, rfl, rfl⟩

/-! ## Characters in turn -/

theorem allMatch_chars (h : cs <+: c.rest) (env : Env) (s : State) :
    AllMatch env (cs.map char) c s (cs.map .letter) (c.advance cs.length) s := by
  induction cs generalizing c with
  | nil =>
    have hstay : c.advance ([] : List Char).length = c := c.advance_zero
    rw [hstay]
    exact .nil
  | cons ch cs ih =>
    obtain ⟨after, hrest⟩ := h
    have hnext : (c.advance 1).rest = cs ++ after := Cursor.rest_advance_one hrest.symm
    rw [← c.advance_cons_length ch cs]
    exact .cons (run_char_of_rest hrest.symm env s) (ih ⟨after, hnext.symm⟩)

/-- The first character that is missing or another one does not lie before the cursor. -/
theorem breaks_chars (h : ¬ cs <+: c.rest) (env : Env) (s : State) :
    ∃ f, Breaks env (cs.map char) c s (.ok f) s ∧ c.pos ≤ f.position := by
  induction cs generalizing c with
  | nil => exact absurd List.nil_prefix h
  | cons ch cs ih =>
    by_cases hhead : [ch] <+: c.rest
    · obtain ⟨after, hrest⟩ := hhead
      have hnext : (c.advance 1).rest = after := Cursor.rest_advance_one hrest.symm
      have hnot : ¬ cs <+: (c.advance 1).rest := by
        rw [hnext]
        rintro ⟨later, rfl⟩
        exact h ⟨later, hrest⟩
      obtain ⟨f, hbreaks, hle⟩ := ih hnot
      have hmove := c.pos_le_advance 1
      exact ⟨f, .later (run_char_of_rest hrest.symm env s) hbreaks, by omega⟩
    · obtain ⟨f, hrun, hposition⟩ := run_char_of_not_prefix hhead env s
      exact ⟨f, .here hrun, Int.le_of_eq hposition.symm⟩

/-! ## The text at once -/

theorem run_literal_of_prefix (h : t.toList <+: c.rest) (env : Env) (s : State) :
    ((literal t).fn c).run env s = (.ok (.success (.atom t) (c.advance t.length)), s) := by
  obtain ⟨hread, htext⟩ := Cursor.reads_iff.2 h
  simp only [literal, ofFn, Eval.run_pure, hread, htext, if_true]

/-- Where the text does not match, the number of characters that are left decides what is
    said. -/
theorem run_literal_of_not_prefix (h : ¬ t.toList <+: c.rest) (env : Env) (s : State) :
    ∃ f, ((literal t).fn c).run env s = (.ok (.failure f), s) ∧ f.position = c.pos ∧
      (f.kind = .endOfInput ↔ c.remaining < t.length) ∧
      (f.kind = .unexpectedLiteral ↔ t.length ≤ c.remaining) := by
  have hread := c.canRead_iff t.length
  rw [Cursor.length_rest] at hread
  simp only [literal, ofFn, Eval.run_pure]
  by_cases hcan : c.canRead t.length = true
  · have hne : c.textAhead t.length ≠ t := fun htext => h (Cursor.reads_iff.1 ⟨hcan, htext⟩)
    have hle : t.length ≤ c.remaining := Int.ofNat_le.1 (hread.1 hcan)
    simp only [hcan, if_true, if_neg hne]
    exact ⟨_, rfl, rfl, iff_of_false nofun (Nat.not_lt.2 hle), iff_of_true rfl hle⟩
  · have hlt : c.remaining < t.length := by
      rw [hread] at hcan
      omega
    simp only [if_neg hcan]
    exact ⟨_, rfl, rfl, iff_of_true rfl hlt, iff_of_false nofun (Nat.not_le.2 hlt)⟩

end Characters

/-- A text that is not empty and the sequence of its characters match at the same cursors,
    namely where what is left begins with the text. They consume the text and have it as the
    text of their values. Anywhere else the text fails at the cursor, for want of characters
    exactly if there are not enough of them, and the sequence does not fail before that. -/
theorem literal_spelled {t : String} {ch : Char} {cs : List Char} (ht : t.toList = ch :: cs)
    (env : Env) (c : Cursor) (s : State) :
    let whole := ((literal t).fn c).run env s
    let spelled := ((seq (char ch) (cs.map char)).fn c).run env s
    (t.toList <+: c.rest ∧ ∃ vs n, whole = (.ok (.success (.atom t) n), s) ∧
        spelled = (.ok (.success (.list vs) n), s) ∧ n.source = c.source ∧
        n.pos = c.pos + t.length ∧ (Value.list vs).text = t) ∨
      (¬ t.toList <+: c.rest ∧ ∃ f g, whole = (.ok (.failure f), s) ∧
        spelled = (.ok (.failure g), s) ∧ f.position = c.pos ∧ f.position ≤ g.position ∧
        (f.kind = .endOfInput ↔ c.remaining < t.length) ∧
        (f.kind = .unexpectedLiteral ↔ t.length ≤ c.remaining)) := by
  intro whole spelled
  have hlength : t.toList.length = t.length := String.length_toList
  have hspelled : spelled = (seqFrom 0 [] (t.toList.map char) c).run env s := by
    rw [ht]
    rfl
  by_cases h : t.toList <+: c.rest
  · have hall := (allMatch_chars h env s).run_seqFrom 0 []
    rw [hlength] at hall
    refine .inl ⟨h, t.toList.map .letter, c.advance t.length, run_literal_of_prefix h env s,
      hspelled.trans hall, rfl, ?_, ?_⟩
    · exact Cursor.advance_length_pos (Cursor.reads_iff.2 h).1
    · rw [← String.toList_inj]
      exact Value.toList_text_letters _
  · obtain ⟨f, hwhole, hposition, hshort, hother⟩ := run_literal_of_not_prefix h env s
    obtain ⟨g, hbreaks, hle⟩ := breaks_chars h env s
    obtain ⟨k, hrun⟩ := hbreaks.run_seqFrom_eq 0 []
    refine .inr ⟨h, f, g.ofElement k, hwhole, hspelled.trans hrun, hposition, ?_, hshort, hother⟩
    rw [hposition]
    exact hle

/-- The source ends in the middle of the text, and its first character is another one. Where
    only the last character is another one, the sequence gets that far. -/
theorem literal_spelled_short :
    let env : Env := { rules := .nested }
    let whole (c : Cursor) := ((literal "abc").fn c).run env {}
    let spelled (c : Cursor) := ((seq (char 'a') [char 'b', char 'c']).fn c).run env {}
    (∃ f g, whole (.start #['x', 'b']) = (.ok (.failure f), {}) ∧ f.kind = .endOfInput ∧
        spelled (.start #['x', 'b']) = (.ok (.failure g), {}) ∧ f.position ≤ g.position) ∧
      ∃ f g, whole (.start #['a', 'b', 'd']) = (.ok (.failure f), {}) ∧
        f.kind = .unexpectedLiteral ∧ f.position = 0 ∧
        spelled (.start #['a', 'b', 'd']) = (.ok (.failure g), {}) ∧ g.position = 2 := by
  intro env whole spelled
  constructor
  · obtain ⟨h, -⟩ | ⟨-, f, g, hwhole, hspelled, -, hle, hshort, -⟩ :=
      literal_spelled (t := "abc") rfl env (.start #['x', 'b']) {}
    · exact absurd h (by decide)
    · exact ⟨f, g, hwhole, hshort.2 (by decide), hspelled, hle⟩
  · obtain ⟨h, -⟩ | ⟨-, f, g, hwhole, hspelled, hposition, -, -, hother⟩ :=
      literal_spelled (t := "abc") rfl env (.start #['a', 'b', 'd']) {}
    · exact absurd h (by decide)
    · refine ⟨f, g, hwhole, hother.2 (by decide), hposition, hspelled, ?_⟩
      cases hspelled
      rfl

end Parser

end Descent
