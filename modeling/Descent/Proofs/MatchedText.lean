-- SUMMARY: The text of a value is made of the text that was matched, in order.
import Descent.Proofs.Completeness
import Descent.Proofs.Shift

/-! # Matched text

A parser without mapping functions cannot invent text. The text of its value
comes from the source between the place where it started and the place where it
stopped: nothing of it occurs twice or in another order, and what the brackets,
the separators and the blanks after a token match is left out. A grammar that has
none of these leaves out nothing. Both are in `Grammar.call_text`. -/

namespace Descent

/-! ## Stretches of a source -/

namespace Cursor

variable {c n m : Cursor}

theorem textUpTo_self (c : Cursor) : c.textUpTo c.pos = "" := by
  rw [(Onward.refl c).textUpTo_eq, Nat.sub_self, textAhead_eq, List.take_zero, String.ofList_nil]

theorem textUpTo_advance (c : Cursor) (n : Nat) : c.textUpTo (c.advance n).pos = c.textAhead n := by
  have hpos : (c.advance n).pos - c.pos = min n c.rest.length := by
    have := c.pos_le
    simp only [advance_pos, length_rest, remaining]
    omega
  rw [(c.onward_advance n).textUpTo_eq, hpos, textAhead_eq, textAhead_eq, ← List.take_eq_take_min]

theorem textUpTo_advance_one {ch : Char} (h : c.head? = some ch) :
    c.textUpTo (c.advance 1).pos = String.singleton ch := by
  rw [head?_eq] at h
  obtain ⟨rest, hrest⟩ := List.head?_eq_some_iff.1 h
  have htext := c.textUpTo_advance 1
  rw [textAhead_eq, hrest] at htext
  exact htext

/-- The text up to a place is the text up to any place before it, and what comes
    after that. -/
theorem Onward.textUpTo_append (hn : c.Onward n) (hm : n.Onward m) :
    c.textUpTo m.pos = c.textUpTo n.pos ++ n.textUpTo m.pos := by
  have hpos : m.pos - c.pos = (n.pos - c.pos) + (m.pos - n.pos) := by
    have := hn.pos
    have := hm.pos
    omega
  have hrest : n.rest = c.rest.drop (n.pos - c.pos) := by
    have := hn.pos
    rw [rest, rest, hn.source, List.drop_drop]
    congr 1
    omega
  rw [(hn.trans hm).textUpTo_eq, hn.textUpTo_eq, hm.textUpTo_eq]
  simp only [textAhead_eq]
  rw [hpos, hrest, List.take_add, String.ofList_append]

end Cursor

/-! ## Texts of values -/

namespace Value

theorem text_nil : (list []).text = "" := rfl

theorem text_cons (v : Value) (vs : List Value) :
    (list (v :: vs)).text = v.text ++ (list vs).text := String.join_cons

theorem text_single (v : Value) : (list [v]).text = v.text := by
  rw [text_cons, text_nil, String.append_empty]

end Value

/-! ## What a value leaves out -/

namespace Grammar

mutual
/-- No part of the grammar leaves matched text out of its value: there are no
    brackets, separated lists or tokens. -/
def Verbatim : Grammar → Prop
  | .char _ => True
  | .literal _ => True
  | .satisfy _ _ => True
  | .eof => True
  | .spaces => True
  | .either a b => a.Verbatim ∧ b.Verbatim
  | .choice p ps => p.Verbatim ∧ AllVerbatim ps
  | .both a b => a.Verbatim ∧ b.Verbatim
  | .absent p => p.Verbatim
  | .seq p ps => p.Verbatim ∧ AllVerbatim ps
  | .between _ _ _ => False
  | .many p => p.Verbatim
  | .many1 p => p.Verbatim
  | .optional p => p.Verbatim
  | .sepBy _ _ => False
  | .sepBy1 _ _ => False
  | .token _ => False
  | .map p _ => p.Verbatim
  | .mapRun p _ inner => p.Verbatim ∧ inner.Verbatim
  | .named _ p => p.Verbatim
  | .ref _ => True
  | .mark _ p => p.Verbatim
  | .author _ _ => True

/-- No part of several grammars leaves matched text out of its value. -/
def AllVerbatim : List Grammar → Prop
  | [] => True
  | p :: ps => p.Verbatim ∧ AllVerbatim ps
end

end Grammar

/-- No part of the piece leaves matched text out of its value. -/
def Piece.Verbatim : Piece → Prop
  | .whole g => g.Verbatim
  | .rounds _ _ => False

/-- Parts without mapping functions, and without parsing functions of an author. -/
def Parts.unmapped (used : Rule → Prop) : Parts where
  mapping := fun _ => False
  author := fun _ => False
  rule := used
  mappingRuns := False

/-! ## Spelling -/

/-- A way in which the text of a value can come from the text that was matched.
    Matched text may be left out if `dropping` holds. -/
structure Spelling (dropping : Prop) (R : String → String → Prop) : Prop where
  all : ∀ t, R t t
  append : ∀ {t u t' u'}, R t u → R t' u' → R (t ++ t') (u ++ u')
  drop : dropping → ∀ u, R "" u

namespace Spelling

variable {dropping : Prop} {R : String → String → Prop}

theorem of_eq (h : Spelling dropping R) {t u : String} (heq : t = u) : R t u := heq ▸ h.all t

theorem before (h : Spelling dropping R) (hdrop : dropping) {t u : String} (w : String)
    (hu : R t u) : R t (u ++ w) := by
  have happend := h.append hu (h.drop hdrop w)
  rwa [String.append_empty] at happend

theorem after (h : Spelling dropping R) (hdrop : dropping) {t u : String} (w : String)
    (hu : R t u) : R t (w ++ u) := by
  have happend := h.append (h.drop hdrop w) hu
  rwa [String.empty_append] at happend

/-- The text as a sublist of what was matched. -/
theorem sublist : Spelling True fun t u => t.toList.Sublist u.toList where
  all := fun t => .refl t.toList
  append := by
    intro t u t' u' h h'
    rw [String.toList_append, String.toList_append]
    exact h.append h'
  drop := fun _ u => List.nil_sublist u.toList

/-- The text as all of what was matched. -/
theorem verbatim : Spelling False fun t u => t = u where
  all := fun _ => rfl
  append := by
    rintro t _ t' _ rfl rfl
    rfl
  drop := False.elim

end Spelling

/-- The text of a value comes from the text between two cursors. -/
def Outcome.Spelled (R : String → String → Prop) (c : Cursor) : Outcome → Prop
  | .success v n => R v.text (c.textUpTo n.pos)
  | .failure _ => True

section Spelled

variable {dropping : Prop} {R : String → String → Prop} {rules : Rules} {used : Rule → Prop}

theorem Spelling.nothing (hR : Spelling dropping R) {v : Value} (hv : v.text = "") (c : Cursor) :
    R v.text (c.textUpTo c.pos) := hR.of_eq (hv.trans c.textUpTo_self.symm)

/-- A value in front of the values of what comes next. -/
theorem Spelling.cons (hR : Spelling dropping R) {c n m : Cursor} {v : Value} {vs : List Value}
    (hn : c.Onward n) (hm : n.Onward m) (hv : R v.text (c.textUpTo n.pos))
    (hvs : R (Value.list vs).text (n.textUpTo m.pos)) :
    R (Value.list (v :: vs)).text (c.textUpTo m.pos) := by
  rw [Value.text_cons, hn.textUpTo_append hm]
  exact hR.append hv hvs

theorem Yields.spelled (hR : Spelling dropping R) (hrules : rules.Use (.unmapped used))
    (hbodies : dropping ∨ ∀ r p, used r → (rules r).body.parser? = some p → p.Verbatim)
    {x : Piece} {c : Cursor} {o : Outcome} (h : Yields rules x c o) (hx : x.Uses (.unmapped used))
    (hverbatim : dropping ∨ x.Verbatim) : o.Spelled R c := by
  induction h with
  | char hc | satisfy hc => exact hR.of_eq (Cursor.textUpTo_advance_one hc).symm
  | @literal s c _ htext => exact hR.of_eq (htext.symm.trans (c.textUpTo_advance s.length).symm)
  | char_end | char_other | literal_end | literal_other | satisfy_end | satisfy_other => trivial
  | eof_rest | either_none | choice_none | both_first | absent_found | seq_first => trivial
  | seq_later | between_opening | between_content | between_closing | token_first => trivial
  | many1_none | sepBy1_none | map_none | mapRun_none => trivial
  | spaces => exact hR.all _
  | eof | absent | many_end | optional_none => exact hR.nothing rfl _
  | rounds_end | rounds_back | rounds_still | sepBy_none => exact hR.nothing rfl _
  | either_first _ ih => exact ih hx.1 (hverbatim.imp_right And.left)
  | either_second _ _ _ ih => exact ih hx.2 (hverbatim.imp_right And.right)
  | choice_last _ ih => exact ih hx.1 (hverbatim.imp_right And.left)
  | choice_next _ ih => exact ih ⟨hx.1, hx.2⟩ hverbatim
  | both _ _ _ ih => exact ih hx.2 (hverbatim.imp_right And.right)
  | @seq_last p c n v _ ih =>
    rw [Outcome.Spelled, Value.text_single]
    exact ih hx.1 (hverbatim.imp_right And.left)
  | seq_next hp hps ih ihs =>
    have hv := ih hx.1 (hverbatim.imp_right And.left)
    have hvs := ihs hx.2 (hverbatim.imp_right And.right)
    exact hR.cons hp.onward hps.onward hv hvs
  | between ho hp hq _ ih _ =>
    have hdrop : dropping := hverbatim.resolve_right id
    have hv := ih hx.2.1 (.inl hdrop)
    rw [Outcome.Spelled, ho.onward.textUpTo_append (hp.onward.trans hq.onward),
      hp.onward.textUpTo_append hq.onward]
    exact hR.after hdrop _ (hR.before hdrop _ hv)
  | @token p c n v hp ih =>
    have hdrop : dropping := hverbatim.resolve_right id
    have hv := ih hx (.inl hdrop)
    rw [Outcome.Spelled, hp.onward.textUpTo_append n.onward_skipBlanks]
    exact hR.before hdrop _ hv
  | @many_still p c n v hp hlt ih | @many1_still p c n v hp hlt ih =>
    have hv := ih hx hverbatim
    rw [hp.onward.eq_of_not_lt hlt] at hv
    rw [Outcome.Spelled, Value.text_single]
    exact hv
  | many_more hp _ hps ih ihs | many1_more hp _ hps ih ihs =>
    exact hR.cons hp.onward hps.onward (ih hx hverbatim) (ihs hx hverbatim)
  | optional _ ih => exact ih hx hverbatim
  | @rounds_more p sep c a n m w v vs hs hp _ hr _ ih ihr =>
    have hdrop : dropping := hverbatim.resolve_right id
    have hitem : R v.text (c.textUpTo n.pos) := by
      rw [hs.onward.textUpTo_append hp.onward]
      exact hR.after hdrop _ (ih hx.1 (.inl hdrop))
    exact hR.cons (hs.onward.trans hp.onward) hr.onward hitem (ihr hx hverbatim)
  | sepBy hp hr ih ihr | sepBy1 hp hr ih ihr =>
    have hdrop : dropping := hverbatim.resolve_right id
    exact hR.cons hp.onward hr.onward (ih hx.1 (.inl hdrop)) (ihr hx (.inl hdrop))
  | map => exact hx.2.elim
  | mapRun => exact hx.1.elim
  | named _ ih | mark _ ih => exact ih hx hverbatim
  | @ref r g c o hg _ ih =>
    refine ih ((hrules r hx).parser hg) ?_
    exact hbodies.imp_right fun h => h r g hx hg

end Spelled

/-! ## Grammars -/

/-- The text of the value of a grammar without mapping functions is a sublist of
    the text from the cursor where it started up to the cursor where it stopped.
    It is all of that text when no part of the grammar, nor of the rules that it
    uses, leaves text out. -/
theorem Grammar.call_text {used : Rule → Prop} {env : Env} (hrules : env.rules.Use (.unmapped used))
    {g : Grammar} (hg : g.Uses (.unmapped used)) {s : State} (hs : s.Faithful env.rules)
    {c n : Cursor} {v : Value} (hcall : ((g.call c).run env s).1 = .ok (.success v n)) :
    c.Onward n ∧ v.text.toList.Sublist (c.textUpTo n.pos).toList ∧
    (g.Verbatim → (∀ r p, used r → (env.rules r).body.parser? = some p → p.Verbatim) →
      v.text = c.textUpTo n.pos) := by
  have hyields : Yields env.rules g c (.success v n) := by
    cases hrun : (g.call c).run env s with
    | mk r s' =>
      rw [hrun] at hcall
      cases hcall
      exact (Grammar.yields_of_call (fun _ => id) hrules hg hs hrun).1
  refine ⟨hyields.onward, ?_, fun hverbatim hbodies => ?_⟩
  · exact hyields.spelled .sublist hrules (.inl trivial) hg (.inl trivial)
  · exact hyields.spelled .verbatim hrules (.inr hbodies) hg (.inr hverbatim)

/-- One letter `a` after the other, but none before a `b`. -/
def Rules.letters : Rules := fun _ => {
  name := "letters"
  body := .grammar (.seq (.char 'a') [.absent (.char 'b'), .optional (.ref "letters")]) }

theorem Grammar.call_text_recursive :
    (∃ v n, ((Grammar.call (.ref "nested") (.start #['(', 'x', ')'])).run { rules := .nested } {}).1 =
      .ok (.success v n) ∧ v.text.toList.Sublist ['(', 'x', ')']) ∧
    ∃ v n, ((Grammar.call (.ref "letters") (.start #['a', 'a', 'a', 'b'])).run
      { rules := .letters } {}).1 = .ok (.success v n) ∧ v.text = "aa" := by
  constructor
  · let env : Env := { rules := .nested }
    have hrules : env.rules.Use (.unmapped fun _ => True) := Rules.nested_use _ fun _ => trivial
    have hg : Grammar.Uses (.unmapped fun _ => True) (.ref "nested") := trivial
    have hcall : ((Grammar.call (.ref "nested") (.start #['(', 'x', ')'])).run env {}).1 =
      .ok (.success (.atom "x") ⟨#['(', 'x', ')'], 3, by decide⟩) := rfl
    have htext := Grammar.call_text hrules hg (State.faithful_init _) hcall
    exact ⟨_, _, hcall, htext.2.1⟩
  · let env : Env := { rules := .letters }
    have hrules : env.rules.Use (.unmapped fun _ => True) :=
      fun _ _ => ⟨trivial, trivial, trivial, trivial⟩
    have hg : Grammar.Uses (.unmapped fun _ => True) (.ref "letters") := trivial
    have hcall : ((Grammar.call (.ref "letters") (.start #['a', 'a', 'a', 'b'])).run env {}).1 =
      .ok (.success (.list [.atom "a", .atom "", .list [.atom "a", .atom "", .list []]])
        ⟨#['a', 'a', 'a', 'b'], 2, by decide⟩) := rfl
    have htext := Grammar.call_text hrules hg (State.faithful_init _) hcall
    refine ⟨_, _, hcall, htext.2.2 trivial ?_⟩
    rintro _ _ - ⟨⟩
    exact ⟨trivial, trivial, trivial, trivial⟩

end Descent
