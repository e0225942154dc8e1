-- SUMMARY: How the failures that grammars answer with are made.
import Mathlib.Data.List.Nodup
import Descent.Proofs.Expectation

/-! # How failures are made

The primitives and the lookahead make failures without causes, and a sequence, a
repetition and a choice each make one of others. No other failure occurs in the tree of a
failure that a grammar yields: `Yields.formed`. A choice never has a failed choice among
its causes, however many grammars a branch passes its failure through, because the
combinators that pass a failure on do not touch it. -/

namespace Descent

/-- The kinds of failures that are not made of others. -/
def FailureKind.IsPlain : FailureKind → Prop
  | .insufficientRepetition | .allAlternativesFailed | .sequenceElementFailed => False
  | .endOfInput | .unexpectedChar | .unexpectedLiteral | .expectedEndOfInput
  | .notExpected => True

theorem FailureKind.IsPlain.ne {kind : FailureKind} (h : kind.IsPlain) :
    kind ≠ .sequenceElementFailed ∧ kind ≠ .allAlternativesFailed ∧
      kind ≠ .insufficientRepetition := by
  refine ⟨?_, ?_, ?_⟩ <;> rintro rfl <;> exact h

namespace Failure

/-! ## Texts that are listed once -/

section Texts

variable {seen es xs ys : List String}

theorem addNew_append : addNew seen (xs ++ ys) = addNew (addNew seen xs) ys := by
  induction xs generalizing seen with
  | nil => rfl
  | cons x xs ih => exact ih

theorem addNew_nodup (h : seen.Nodup) : (addNew seen es).Nodup := by
  induction es generalizing seen with
  | nil => exact h
  | cons e es ih =>
    unfold addNew
    split
    · exact ih h
    · rename_i he
      refine ih (List.nodup_append.2 ⟨h, List.nodup_singleton e, ?_⟩)
      intro x hx y hy hxy
      rw [hxy, List.mem_singleton.1 hy] at hx
      exact he hx

theorem expectedAt_nodup (position : Int) (fs : List Failure) : (expectedAt position fs).Nodup :=
  addNew_nodup .nil

/-- Of texts that were seen, those that occur again are left out. -/
theorem addNew_eq_append_eraseDups :
    addNew seen es = seen ++ (es.filter (· ∉ seen)).eraseDups := by
  induction es generalizing seen with
  | nil => simp [addNew]
  | cons e es ih =>
    rw [addNew, ih]
    by_cases he : e ∈ seen
    · simp [he]
    · have hfilter : es.filter (· ∉ seen ++ [e]) =
          (es.filter (· ∉ seen)).filter (fun x => !(x == e)) := by
        rw [List.filter_filter]
        refine List.filter_congr fun x _ => ?_
        by_cases hx : x = e <;> simp [hx]
      have hcons : (e :: es).filter (· ∉ seen) = e :: es.filter (· ∉ seen) :=
        List.filter_cons_of_pos (decide_eq_true he)
      rw [if_neg he, hfilter, hcons, List.eraseDups_cons, List.append_assoc,
        List.singleton_append]

/-- To list texts once before they are added makes no difference. -/
theorem addNew_addNew : addNew seen (addNew xs es) = addNew (addNew seen xs) es := by
  induction es generalizing xs with
  | nil => rfl
  | cons e es ih =>
    rw [addNew, ih, addNew]
    congr 1
    by_cases he : e ∈ xs
    · rw [if_pos he, if_pos (mem_addNew.2 (.inr he))]
    · rw [if_neg he, addNew_append]
      rfl

theorem addNew_nil_eq_eraseDups : addNew [] es = es.eraseDups := by
  rw [addNew_eq_append_eraseDups, List.nil_append]
  congr 1
  simp

/-- A list whose texts are all new and different is added as it is. -/
theorem addNew_of_nodup (h : (seen ++ es).Nodup) : addNew seen es = seen ++ es := by
  induction es generalizing seen with
  | nil => simp [addNew]
  | cons e es ih =>
    have he : e ∉ seen := fun hmem =>
      (List.nodup_append.1 h).2.2 e hmem e List.mem_cons_self rfl
    rw [List.append_cons] at h
    rw [addNew, if_neg he, ih h, List.append_assoc, List.singleton_append]

end Texts

/-! ## The ways to make a failure -/

/-- A failure as the primitives and the combinators make it. -/
inductive Formed : Failure → Prop
  | plain {kind : FailureKind} (position : Nat) {d : Diagnostic} :
      kind.IsPlain → d.expected.Nodup → Formed (ofDiagnostic kind position d)
  | element {f : Failure} (index : Nat) : f.expected.Nodup → Formed (f.ofElement index)
  | insufficient {f : Failure} {c : Cursor} (parser : String) :
      f.expected.Nodup → c.pos ≤ f.position → Formed (f.insufficient parser c)
  | alternatives {fs : List Failure} {h : Failure} :
      (∀ f ∈ fs, f.kind ≠ .allAlternativesFailed) → alternatives? fs = some h → Formed h

section Formed

variable {f h : Failure} {bs : List Failure}

theorem kind_of_alternatives (hh : alternatives? bs = some h) :
    h.kind = .allAlternativesFailed := by
  unfold alternatives? at hh
  split at hh <;> cases hh
  rfl

theorem index_of_alternatives (hh : alternatives? bs = some h) : h.index = none := by
  unfold alternatives? at hh
  split at hh <;> cases hh
  rfl

/-- Failures that are not choices are the branches that they contribute. -/
theorem flatMap_spliced (hbs : ∀ b ∈ bs, b.kind ≠ .allAlternativesFailed) :
    bs.flatMap spliced = bs := by
  induction bs with
  | nil => rfl
  | cons b bs ih =>
    obtain ⟨hb, hbs⟩ := List.forall_mem_cons.1 hbs
    rw [List.flatMap_cons, spliced_of_kind hb, ih hbs, List.singleton_append]

theorem Formed.nodup (hf : f.Formed) : f.expected.Nodup := by
  cases hf with
  | plain _ _ hd => exact hd
  | element _ hf | insufficient _ hf _ => exact hf
  | alternatives _ hh =>
    rw [(eq_of_alternatives hh).2.2]
    exact expectedAt_nodup _ _

/-- A formed choice is the choice of its causes, and none of these is a choice. -/
theorem Formed.of_choice (hf : f.Formed) (hkind : f.kind = .allAlternativesFailed) :
    (∀ e ∈ f.causes, e.kind ≠ .allAlternativesFailed) ∧ alternatives? f.causes = some f := by
  cases hf with
  | plain _ hplain _ => exact absurd hkind hplain.ne.2.1
  | element | insufficient => cases hkind
  | @alternatives fs _ hfs hh =>
    have hcauses : f.causes = fs := by rw [(eq_of_alternatives hh).1, flatMap_spliced hfs]
    rw [hcauses]
    exact ⟨hfs, hh⟩

/-- What a failure contributes to a choice is not a failed choice. -/
theorem Formed.kind_of_mem_spliced (hf : f.Formed) :
    ∀ e ∈ f.spliced, e.kind ≠ .allAlternativesFailed := by
  by_cases hkind : f.kind = .allAlternativesFailed
  · rw [spliced_of_choice hkind]
    exact (hf.of_choice hkind).1
  · rw [spliced_of_kind hkind]
    exact List.forall_mem_singleton.2 hkind

/-- A choice of formed failures is formed: the choices among them dissolve in it. -/
theorem formed_of_alternatives (hbs : ∀ b ∈ bs, b.Formed) (hh : alternatives? bs = some h) :
    h.Formed := by
  have hflat : ∀ f ∈ bs.flatMap spliced, f.kind ≠ .allAlternativesFailed := by
    intro f hf
    obtain ⟨b, hb, hf⟩ := List.mem_flatMap.1 hf
    exact (hbs b hb).kind_of_mem_spliced f hf
  refine .alternatives hflat ?_
  rw [← hh]
  exact alternatives?_congr (flatMap_spliced hflat)

theorem throughout_formed_of_alternatives (hbs : ∀ b ∈ bs, b.Throughout Formed)
    (hh : alternatives? bs = some h) : h.Throughout Formed :=
  .alternatives hbs hh fun _ => formed_of_alternatives (fun b hb => hbs b hb b (.self b)) hh

theorem throughout_formed_element (index : Nat) (hf : f.Throughout Formed) :
    (f.ofElement index).Throughout Formed :=
  throughout_iff.2 ⟨.element index (hf f (.self f)).nodup, List.forall_mem_singleton.2 hf⟩

theorem throughout_formed_plain {kind : FailureKind} (position : Nat) {d : Diagnostic}
    (hkind : kind.IsPlain) (hd : d.expected.Nodup) :
    (ofDiagnostic kind position d).Throughout Formed :=
  throughout_iff.2 ⟨.plain position hkind hd, fun _ he => (List.not_mem_nil he).elim⟩

end Formed

end Failure

/-! ## Answers -/

/-- All failures in the tree of a failure that a grammar yields are formed. -/
theorem Yields.formed {rules : Rules} {x : Piece} {c : Cursor} {o : Outcome}
    (h : Yields rules x c o) : o.Fails Failure.Formed := by
  induction h with
  | char | literal | satisfy | eof | spaces => trivial
  | char_end | char_other | literal_end | literal_other | satisfy_end | satisfy_other | eof_rest =>
    exact Failure.throughout_formed_plain _ trivial (List.nodup_singleton _)
  | absent_found => exact Failure.throughout_formed_plain _ trivial .nil
  | either_first | either_second | choice_last | absent => trivial
  | either_none _ _ hh hf hg =>
    refine Failure.throughout_formed_of_alternatives ?_ hh
    exact List.forall_mem_cons.2 ⟨hf, List.forall_mem_singleton.2 hg⟩
  | choice_none _ hh hf =>
    exact Failure.throughout_formed_of_alternatives (List.forall_mem_singleton.2 hf) hh
  | choice_next _ ih | both_first _ ih | both _ _ _ ih => exact ih
  | seq_first _ ih => exact Failure.throughout_formed_element 0 ih
  | seq_last | seq_next | between | token => trivial
  | seq_later _ _ _ ih => exact Failure.throughout_formed_element _ ih.of_ofElement
  | between_opening _ ih | token_first _ ih | sepBy1_none _ ih => exact ih
  | between_content _ _ _ ih | between_closing _ _ _ _ _ ih => exact ih
  | many_end | many_still | many_more | many1_still | many1_more => trivial
  | @many1_none _ c f hp ih =>
    -- The repetition reports where it began, and its part may have failed further on.
    have hspans : c.Spans f.position := hp.inherits Failure.spans_inherited f (.self f)
    refine Failure.throughout_iff.2 ⟨?_, List.forall_mem_singleton.2 ih⟩
    exact .insufficient _ (ih f (.self f)).nodup hspans.1
  | optional | optional_none | rounds_end | rounds_back | rounds_still | rounds_more => trivial
  | sepBy_none | sepBy | sepBy1 | map | mapRun => trivial
  | map_none _ ih | mapRun_none _ ih | named _ ih | mark _ ih | ref _ _ ih => exact ih

/-- A grammar without parsing functions of its author answers with the failure at some
    cursor. -/
def Failure.Produced (f : Failure) : Prop :=
  ∃ (parts : Parts) (env : Env) (g : Grammar) (c : Cursor) (s s' : State),
    (∀ fn, ¬ parts.author fn) ∧ env.rules.Use parts ∧ g.Uses parts ∧ s.Faithful env.rules ∧
      (g.call c).run env s = (.ok (.failure f), s')

theorem Failure.Produced.throughout {f : Failure} (hf : f.Produced) : f.Throughout Formed := by
  obtain ⟨parts, env, g, c, s, s', hauthor, hrules, hg, hs, h⟩ := hf
  exact (Grammar.yields_of_call hauthor hrules hg hs h).1.formed

theorem Failure.Produced.formed {f : Failure} (hf : f.Produced) : f.Formed :=
  hf.throughout f (.self f)

end Descent
