-- SUMMARY: The deepest leaf of a failure, and when the failure says what that leaf says.
import Descent.Proofs.ChoiceReport

/-! # The deepest leaf

Of the leaves in the tree of a failure the deepest is the last one that got furthest,
whatever the tree looks like. In the trees of failures that grammars produce, no failure at
all got further than that leaf, because a failure that is made of others never lies behind
all of them.

A failure that is made of others takes its position and its message from one of them, the
last of those that got furthest. So it says what its deepest leaf says, unless a repetition
is in between, which speaks for itself: `Failure.deepest_report`. -/

namespace Descent

namespace Failure

variable {f g h r : Failure} {fs gs before after : List Failure}

/-! ## The last of the furthest -/

/-- No failure of the list got further, and those after this one did not get as far. -/
def LastFurthest (f : Failure) (fs : List Failure) : Prop :=
  ∃ before after, fs = before ++ f :: after ∧
    (∀ g ∈ before, g.position ≤ f.position) ∧ ∀ g ∈ after, g.position < f.position

namespace LastFurthest

theorem single (f : Failure) : f.LastFurthest [f] := ⟨[], [], rfl, nofun, nofun⟩

theorem mem (hf : f.LastFurthest fs) : f ∈ fs := by
  obtain ⟨before, after, rfl, -, -⟩ := hf
  exact List.mem_append_right before List.mem_cons_self

theorem position_le (hf : f.LastFurthest fs) : ∀ g ∈ fs, g.position ≤ f.position := by
  obtain ⟨before, after, rfl, hbefore, hafter⟩ := hf
  intro g hg
  rcases List.mem_append.1 hg with hg | hg
  · exact hbefore g hg
  · rcases List.mem_cons.1 hg with rfl | hg
    · exact le_rfl
    · exact (hafter g hg).le

/-- It stays the last of the furthest when failures are added that do not reach it. -/
theorem within (hf : f.LastFurthest fs) (hbefore : ∀ g ∈ before, g.position ≤ f.position)
    (hafter : ∀ g ∈ after, g.position < f.position) :
    f.LastFurthest (before ++ (fs ++ after)) := by
  obtain ⟨front, back, rfl, hfront, hback⟩ := hf
  refine ⟨before ++ front, back ++ after, by simp, ?_, ?_⟩
  · intro g hg
    exact (List.mem_append.1 hg).elim (hbefore g) (hfront g)
  · intro g hg
    exact (List.mem_append.1 hg).elim (hback g) (hafter g)

/-- Of two lists, the second decides unless all of it is behind. -/
theorem append (hf : f.LastFurthest fs) (hg : g.LastFurthest gs) :
    (if f.position ≤ g.position then g else f).LastFurthest (fs ++ gs) := by
  split
  · rename_i hle
    have hfs : ∀ e ∈ fs, e.position ≤ g.position := fun e he => (hf.position_le e he).trans hle
    have hwithin : g.LastFurthest (fs ++ (gs ++ [])) := hg.within hfs nofun
    rw [List.append_nil] at hwithin
    exact hwithin
  · rename_i hlt
    have hgs : ∀ e ∈ gs, e.position < f.position :=
      fun e he => (hg.position_le e he).trans_lt (not_le.1 hlt)
    have hwithin : f.LastFurthest ([] ++ (fs ++ gs)) := hf.within nofun hgs
    exact hwithin

theorem unique (hf : f.LastFurthest fs) (hg : g.LastFurthest fs) : f = g := by
  have hposition : f.position = g.position :=
    le_antisymm (hg.position_le f hf.mem) (hf.position_le g hg.mem)
  obtain ⟨before, after, rfl, -, hafter⟩ := hf
  obtain ⟨before', after', heq, -, hafter'⟩ := hg
  -- Whichever comes first would be before one that is as far.
  rcases List.append_eq_append_iff.1 heq with ⟨between, -, hbetween⟩ | ⟨between, -, hbetween⟩
  · cases between with
    | nil => exact (List.cons.inj hbetween).1
    | cons e between =>
      obtain ⟨rfl, rfl⟩ := List.cons.inj hbetween
      have hlt := hafter g (List.mem_append_right between List.mem_cons_self)
      exact absurd hposition.symm hlt.ne
  · cases between with
    | nil => exact (List.cons.inj hbetween).1.symm
    | cons e between =>
      obtain ⟨rfl, rfl⟩ := List.cons.inj hbetween
      have hlt := hafter' f (List.mem_append_right between List.mem_cons_self)
      exact absurd hposition hlt.ne

theorem lastAt_eq (hf : f.LastFurthest fs) : lastAt f.position fs = some f.message := by
  obtain ⟨before, after, rfl, -, hafter⟩ := hf
  have hself : lastAt f.position [f] = some f.message := by simp [lastAt]
  have hnone : lastAt f.position after = none := by
    rw [lastAt, filter_position_eq_nil hafter]
    rfl
  rw [lastAt_append, lastAt_cons, hnone, hself]
  rfl

end LastFurthest

/-- The furthest of failures each of which is the last of the furthest in a part of a list
    is that in the whole list. -/
theorem LastFurthest.furthest {pick : Failure → Failure} {part : Failure → List Failure}
    (hg : g.LastFurthest gs) (hfs : ∀ f ∈ fs, (pick f).LastFurthest (part f)) :
    (furthest g (fs.map pick)).LastFurthest (gs ++ fs.flatMap part) := by
  induction fs generalizing g gs with
  | nil =>
    rw [List.flatMap_nil, List.append_nil]
    exact hg
  | cons f fs ih =>
    obtain ⟨hf, hfs⟩ := List.forall_mem_cons.1 hfs
    rw [List.flatMap_cons, ← List.append_assoc]
    exact ih (hg.append hf) hfs

theorem furthest_lastFurthest (best : Failure) (fs : List Failure) :
    (furthest best fs).LastFurthest (best :: fs) := by
  have hfs : ∀ f ∈ fs, (id f).LastFurthest [f] := fun f _ => .single f
  have h := (LastFurthest.single best).furthest hfs
  rw [List.map_id, List.flatMap_singleton', List.singleton_append] at h
  exact h

theorem exists_lastFurthest (h : fs ≠ []) : ∃ f : Failure, f.LastFurthest fs := by
  cases fs with
  | nil => exact absurd rfl h
  | cons f fs => exact ⟨_, furthest_lastFurthest f fs⟩

/-! ## Leaves -/

mutual
/-- The failures without causes in the tree, from left to right. -/
def leaves : Failure → List Failure
  | ⟨k, p, m, e, i, []⟩ => [⟨k, p, m, e, i, []⟩]
  | ⟨_, _, _, _, _, c :: cs⟩ => leaves c ++ allLeaves cs

/-- The failures without causes in several trees. -/
def allLeaves : List Failure → List Failure
  | [] => []
  | c :: cs => leaves c ++ allLeaves cs
end

/-- Induction over trees of failures. -/
@[elab_as_elim]
theorem induct {motive : Failure → Prop}
    (node : ∀ f : Failure, (∀ e ∈ f.causes, motive e) → motive f) (f : Failure) : motive f :=
  @Failure.rec motive (fun fs => ∀ e ∈ fs, motive e)
    (fun _ _ _ _ _ _ hcauses => node _ hcauses)
    (fun _ h => absurd h List.not_mem_nil)
    (fun _ _ hc hcs => List.forall_mem_cons.2 ⟨hc, hcs⟩) f

theorem allLeaves_eq_flatMap (fs : List Failure) : allLeaves fs = fs.flatMap leaves := by
  induction fs with
  | nil => rfl
  | cons f fs ih => rw [allLeaves, ih, List.flatMap_cons]

theorem leaves_of_leaf (h : f.causes = []) : f.leaves = [f] := by
  obtain ⟨k, p, m, e, i, causes⟩ := f
  cases h
  rfl

theorem leaves_of_causes (h : f.causes ≠ []) : f.leaves = f.causes.flatMap leaves := by
  obtain ⟨k, p, m, e, i, causes⟩ := f
  cases causes with
  | nil => exact absurd rfl h
  | cons c cs => rw [leaves, allLeaves_eq_flatMap, List.flatMap_cons]

/-- The leaves are the failures of the tree that have no causes. -/
theorem mem_leaves_iff : g ∈ f.leaves ↔ f.Contains g ∧ g.causes = [] := by
  induction f using induct with
  | node f ih =>
    by_cases hf : f.causes = []
    · rw [leaves_of_leaf hf, List.mem_singleton]
      constructor
      · rintro rfl
        exact ⟨.self g, hf⟩
      · rintro ⟨hg, -⟩
        cases hg with
        | self => rfl
        | cause he _ =>
          rw [hf] at he
          exact absurd he List.not_mem_nil
    · rw [leaves_of_causes hf, List.mem_flatMap]
      constructor
      · rintro ⟨e, he, hg⟩
        obtain ⟨hcontains, hleaf⟩ := (ih e he).1 hg
        exact ⟨.cause he hcontains, hleaf⟩
      · rintro ⟨hg, hleaf⟩
        cases hg with
        | self => exact absurd hleaf hf
        | cause he hg => exact ⟨_, he, (ih _ he).2 ⟨hg, hleaf⟩⟩

/-! ## The deepest leaf -/

theorem deepestOf_eq_furthest (best : Failure) (fs : List Failure) :
    deepestOf best fs = furthest best (fs.map deepest) := by
  induction fs generalizing best with
  | nil => rfl
  | cons f fs ih =>
    rw [deepestOf, ih]
    rfl

theorem deepest_of_leaf (h : f.causes = []) : f.deepest = f := by
  obtain ⟨k, p, m, e, i, causes⟩ := f
  cases h
  rfl

theorem deepest_of_causes {c : Failure} {cs : List Failure} (h : f.causes = c :: cs) :
    f.deepest = furthest c.deepest (cs.map deepest) := by
  obtain ⟨k, p, m, e, i, causes⟩ := f
  cases h
  rw [deepest, deepestOf_eq_furthest]

theorem deepest_lastFurthest (f : Failure) : f.deepest.LastFurthest f.leaves := by
  induction f using induct with
  | node f ih =>
    cases hf : f.causes with
    | nil =>
      rw [deepest_of_leaf hf, leaves_of_leaf hf]
      exact .single f
    | cons c cs =>
      rw [hf] at ih
      obtain ⟨hc, hcs⟩ := List.forall_mem_cons.1 ih
      have hcauses : f.causes ≠ [] := by simp [hf]
      rw [deepest_of_causes hf, leaves_of_causes hcauses, hf, List.flatMap_cons]
      exact hc.furthest hcs

theorem Contains.trans (hf : f.Contains g) (hg : g.Contains h) : f.Contains h := by
  induction hf with
  | self => exact hg
  | cause he _ ih => exact .cause he (ih hg)

theorem Throughout.contains {P : Failure → Prop} (hf : f.Throughout P) (hg : f.Contains g) :
    g.Throughout P := fun _ hh => hf _ (hg.trans hh)

/-- The deepest leaf of a part of a tree is not beyond that of the tree. -/
theorem Contains.deepest_le (hg : f.Contains g) : g.deepest.position ≤ f.deepest.position := by
  obtain ⟨hcontains, hleaf⟩ := mem_leaves_iff.1 g.deepest_lastFurthest.mem
  have hmem : g.deepest ∈ f.leaves := mem_leaves_iff.2 ⟨hg.trans hcontains, hleaf⟩
  exact f.deepest_lastFurthest.position_le _ hmem

/-- If no cause is behind its own deepest leaf, the deepest leaf is that of the last of the
    furthest causes. -/
theorem LastFurthest.deepest_eq (hr : r.LastFurthest f.causes)
    (hcauses : ∀ e ∈ f.causes, e.deepest.position = e.position) : f.deepest = r.deepest := by
  have hne : f.causes ≠ [] := List.ne_nil_of_mem hr.mem
  have hle {e l : Failure} (he : e ∈ f.causes) (hl : l ∈ e.leaves) : l.position ≤ e.position := by
    rw [← hcauses e he]
    exact e.deepest_lastFurthest.position_le l hl
  have hposition : r.deepest.position = r.position := hcauses r hr.mem
  refine f.deepest_lastFurthest.unique ?_
  rw [leaves_of_causes hne]
  obtain ⟨before, after, heq, hbefore, hafter⟩ := hr
  rw [heq] at hle ⊢
  rw [List.flatMap_append, List.flatMap_cons]
  refine r.deepest_lastFurthest.within ?_ ?_
  · intro l hl
    obtain ⟨e, he, hl⟩ := List.mem_flatMap.1 hl
    rw [hposition]
    exact (hle (List.mem_append_left _ he) hl).trans (hbefore e he)
  · intro l hl
    obtain ⟨e, he, hl⟩ := List.mem_flatMap.1 hl
    rw [hposition]
    exact (hle (List.mem_append_right _ (List.mem_cons_of_mem r he)) hl).trans_lt (hafter e he)

/-! ## What failures say of their deepest leaf -/

/-- A failure that is made of others is not behind all of them. -/
theorem Formed.exists_cause (hf : f.Formed) (hcauses : f.causes ≠ []) :
    ∃ e ∈ f.causes, f.position ≤ e.position := by
  cases hf with
  | plain => exact absurd rfl hcauses
  | element => exact ⟨_, List.mem_cons_self, le_rfl⟩
  | insufficient _ _ hle => exact ⟨_, List.mem_cons_self, hle⟩
  | alternatives _ hh =>
    obtain ⟨-, ⟨e, he, hposition, -⟩, -⟩ := eq_of_alternatives hh
    exact ⟨e, he, hposition.ge⟩

theorem Throughout.position_le_deepest (hf : f.Throughout Formed) :
    f.position ≤ f.deepest.position := by
  induction f using induct with
  | node f ih =>
    by_cases hcauses : f.causes = []
    · rw [deepest_of_leaf hcauses]
    · obtain ⟨hformed, hall⟩ := throughout_iff.1 hf
      obtain ⟨e, he, hle⟩ := hformed.exists_cause hcauses
      have hdeepest : e.deepest.position ≤ f.deepest.position :=
        (Contains.cause he (.self e)).deepest_le
      exact (hle.trans (ih e he (hall e he))).trans hdeepest

/-- Apart from repetitions, a failure that is made of others says what the last of the
    furthest among these says. -/
theorem Formed.says_of_lastFurthest (hf : f.Formed) (hkind : f.kind ≠ .insufficientRepetition)
    (hr : r.LastFurthest f.causes) : f.position = r.position ∧ f.message = r.message := by
  cases hf with
  | plain => exact absurd hr.mem List.not_mem_nil
  | element =>
    cases List.mem_singleton.1 hr.mem
    exact ⟨rfl, rfl⟩
  | insufficient => exact absurd rfl hkind
  | alternatives hfs hh =>
    have hformed : f.Formed := .alternatives hfs hh
    have hreports : f.Reports f.causes :=
      spliced_of_choice (kind_of_alternatives hh) ▸ hformed.reports
    have hposition : f.position = r.position :=
      le_antisymm (hreports.position_le hr.position_le) (hreports.position r hr.mem)
    have hmessage := hreports.message
    rw [hposition, hr.lastAt_eq] at hmessage
    exact ⟨hposition, (Option.some.inj hmessage).symm⟩

/-- Where no repetition is in between, a failure says what its deepest leaf says. -/
theorem Throughout.says_deepest (hf : f.Throughout Formed)
    (hkinds : f.Throughout (·.kind ≠ .insufficientRepetition)) :
    f.position = f.deepest.position ∧ f.message = f.deepest.message := by
  induction f using induct with
  | node f ih =>
    by_cases hcauses : f.causes = []
    · rw [deepest_of_leaf hcauses]
      exact ⟨rfl, rfl⟩
    · obtain ⟨hformed, hall⟩ := throughout_iff.1 hf
      obtain ⟨hkind, hkinds⟩ := throughout_iff.1 hkinds
      obtain ⟨r, hr⟩ := exists_lastFurthest hcauses
      have hagree := hformed.says_of_lastFurthest hkind hr
      have hdeepest : f.deepest = r.deepest :=
        hr.deepest_eq fun e he => (ih e he (hall e he) (hkinds e he)).1.symm
      have hcause := ih r hr.mem (hall r hr.mem) (hkinds r hr.mem)
      rw [hdeepest]
      exact ⟨hagree.1.trans hcause.1, hagree.2.trans hcause.2⟩

/-- The deepest leaf of a failure is the last one of its leaves that got furthest. Nothing in
    the tree of a failure that a grammar produces got further. If no repetition is in that
    tree, then position and message of the failure are those of its deepest leaf, and every
    failure in the tree that has causes says what the last of its furthest causes says and has
    the same deepest leaf as that cause. -/
theorem deepest_report (f : Failure) :
    (∀ l : Failure, l.LastFurthest f.leaves ↔ l = f.deepest) ∧
    (f.Produced →
      (∀ e, f.Contains e → e.position ≤ f.deepest.position) ∧
      ((∀ e, f.Contains e → e.kind ≠ .insufficientRepetition) →
        f.position = f.deepest.position ∧ f.message = f.deepest.message ∧
        ∀ e r : Failure, f.Contains e → r.LastFurthest e.causes →
          e.position = r.position ∧ e.message = r.message ∧ e.deepest = r.deepest)) := by
  refine ⟨fun l => ⟨fun hl => hl.unique f.deepest_lastFurthest, ?_⟩, fun hf => ⟨?_, fun hkinds => ?_⟩⟩
  · rintro rfl
    exact f.deepest_lastFurthest
  · intro e he
    exact (hf.throughout.contains he).position_le_deepest.trans he.deepest_le
  · obtain ⟨hposition, hmessage⟩ := hf.throughout.says_deepest hkinds
    refine ⟨hposition, hmessage, fun e r he hr => ?_⟩
    have hformed : e.Throughout Formed := hf.throughout.contains he
    have hnone : e.Throughout (·.kind ≠ .insufficientRepetition) := Throughout.contains hkinds he
    have hagree := (hformed e (.self e)).says_of_lastFurthest (hnone e (.self e)) hr
    refine ⟨hagree.1, hagree.2, hr.deepest_eq fun c hc => ?_⟩
    have hc : e.Contains c := .cause hc (.self c)
    exact ((hformed.contains hc).says_deepest (hnone.contains hc)).1.symm

/-- Two sequences fail after the same letter. The second one is reported, and it has the
    deepest leaf. -/
theorem deepest_report_tie :
    let g : Grammar := .either (.seq (.char 'a') [.char 'b']) (.seq (.char 'a') [.char 'c'])
    let other (ch : Char) : Failure :=
      ofDiagnostic .unexpectedChar 1 (.unexpectedChar (quoteChar ch) (String.singleton 'd'))
    ∃ f s', (g.call (.start #['a', 'd'])).run { rules := .nested } {} = (.ok (.failure f), s') ∧
      f.Produced ∧ f.causes = [(other 'b').ofElement 1, (other 'c').ofElement 1] ∧
      f.position = 1 ∧ f.message = (other 'c').message ∧ f.deepest = other 'c' := by
  intro g other
  let env : Env := { rules := .nested }
  have hrules : env.rules.Use .bare := Rules.nested_use _ fun _ => trivial
  have hg : g.Uses .bare := ⟨⟨trivial, trivial, trivial⟩, trivial, trivial, trivial⟩
  have hproduced (f : Failure) (s' : State)
      (h : (g.call (.start #['a', 'd'])).run env {} = (.ok (.failure f), s')) : f.Produced :=
    ⟨.bare, env, g, _, {}, s', fun _ => id, hrules, hg, State.faithful_init _, h⟩
  have hother (ch : Char) : ((other ch).ofElement 1).Throughout (·.kind ≠ .insufficientRepetition) :=
    throughout_iff.2 ⟨nofun, List.forall_mem_singleton.2 (throughout_iff.2 ⟨nofun, nofun⟩)⟩
  refine ⟨_, _, rfl, hproduced _ _ rfl, rfl, ?_⟩
  obtain ⟨-, hreport⟩ := (deepest_report _).2 (hproduced _ _ rfl)
  obtain ⟨-, -, hcauses⟩ := hreport (throughout_iff.2 ⟨nofun,
    List.forall_mem_cons.2 ⟨hother 'b', List.forall_mem_singleton.2 (hother 'c')⟩⟩)
  have hlast : ((other 'c').ofElement 1).LastFurthest
      [(other 'b').ofElement 1, (other 'c').ofElement 1] :=
    ⟨[_], [], rfl, List.forall_mem_singleton.2 le_rfl, nofun⟩
  exact hcauses _ _ (.self _) hlast

end Failure

end Descent
