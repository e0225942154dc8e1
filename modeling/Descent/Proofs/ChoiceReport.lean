-- SUMMARY: What a failed choice reports, in terms of its branches.
import Descent.Proofs.Formation

/-! # Reports of failed choices

A failed choice is computed from the failures that its branches contribute, which for a
branch that is a failed choice are those of its own branches. The report can be read off
the branches all the same: it is at the position of the branch that got furthest, with
the message of the last such branch and all that these branches expected. This holds
because a failed choice already is the report on its own branches, so that it makes no
difference whether it or they are looked at: `Failure.Reports.branches`. Only the causes
tell the two apart.

Nothing of this holds of a failed choice whose position has nothing to do with its causes,
so the branches are failures that grammars produce: `Failure.noneMatched_report`. -/

namespace Descent

namespace Failure

variable {b f g h : Failure} {bs fs gs : List Failure} {p : Int}

/-! ## The failures at a position -/

/-- The message of the last of the failures at the position. -/
def lastAt (p : Int) (fs : List Failure) : Option String :=
  (fs.filter (·.position = p)).getLast?.map (·.message)

/-- What the failures at the position list as expected. -/
def textsAt (p : Int) (fs : List Failure) : List String :=
  (fs.filter (·.position = p)).flatMap (·.expected)

theorem expectedAt_eq (p : Int) (fs : List Failure) : expectedAt p fs = addNew [] (textsAt p fs) :=
  rfl

theorem lastAt_append : lastAt p (fs ++ gs) = (lastAt p gs).or (lastAt p fs) := by
  unfold lastAt
  rw [List.filter_append, List.getLast?_append, Option.map_or]

theorem lastAt_cons : lastAt p (f :: fs) = (lastAt p fs).or (lastAt p [f]) := by
  rw [← lastAt_append, List.singleton_append]

theorem textsAt_append : textsAt p (fs ++ gs) = textsAt p fs ++ textsAt p gs := by
  unfold textsAt
  rw [List.filter_append, List.flatMap_append]

theorem filter_position_eq_nil (h : ∀ f ∈ fs, f.position < p) :
    fs.filter (·.position = p) = [] :=
  List.filter_eq_nil_iff.2 fun f hf heq => (h f hf).ne (of_decide_eq_true heq)

theorem exists_of_lastAt {message : String} (h : lastAt p fs = some message) :
    ∃ f ∈ fs, f.position = p ∧ f.message = message := by
  obtain ⟨f, hf, hmessage⟩ := Option.map_eq_some_iff.1 h
  obtain ⟨hmem, hposition⟩ := List.mem_filter.1 (List.mem_of_getLast? hf)
  exact ⟨f, hmem, of_decide_eq_true hposition, hmessage⟩

/-! ## The furthest failure -/

theorem position_le_furthest (best : Failure) (fs : List Failure) :
    ∀ f ∈ best :: fs, f.position ≤ (furthest best fs).position := by
  induction fs generalizing best with
  | nil => exact List.forall_mem_singleton.2 le_rfl
  | cons g fs ih =>
    unfold furthest
    split
    · rename_i hle
      obtain ⟨hg, hfs⟩ := List.forall_mem_cons.1 (ih g)
      exact List.forall_mem_cons.2 ⟨hle.trans hg, List.forall_mem_cons.2 ⟨hg, hfs⟩⟩
    · rename_i hlt
      obtain ⟨hbest, hfs⟩ := List.forall_mem_cons.1 (ih best)
      have hg : g.position ≤ (furthest best fs).position := (not_le.1 hlt).le.trans hbest
      exact List.forall_mem_cons.2 ⟨hbest, List.forall_mem_cons.2 ⟨hg, hfs⟩⟩

theorem lastAt_furthest (best : Failure) (fs : List Failure) :
    lastAt (furthest best fs).position (best :: fs) = some (furthest best fs).message := by
  induction fs generalizing best with
  | nil => simp [lastAt, furthest]
  | cons g fs ih =>
    unfold furthest
    split
    · rw [lastAt_cons, ih g, Option.some_or]
    · rename_i hlt
      -- The second failure is behind the first, so it counts for nothing.
      have hbest := position_le_furthest best fs best List.mem_cons_self
      have hg : lastAt (furthest best fs).position [g] = none := by
        have hbehind : g.position < (furthest best fs).position :=
          (not_le.1 hlt).trans_le hbest
        rw [lastAt, filter_position_eq_nil (List.forall_mem_singleton.2 hbehind)]
        rfl
      rw [lastAt_cons, lastAt_cons, hg, Option.or_none, ← lastAt_cons]
      exact ih best

/-! ## Reports -/

/-- The failure says of the failures what a failed choice says of its causes. -/
structure Reports (h : Failure) (fs : List Failure) : Prop where
  position : ∀ f ∈ fs, f.position ≤ h.position
  message : lastAt h.position fs = some h.message
  expected : h.expected = expectedAt h.position fs

theorem reports_of_alternatives (hh : alternatives? bs = some h) :
    h.Reports (bs.flatMap spliced) := by
  unfold alternatives? at hh
  split at hh
  · cases hh
  · rename_i f fs hfs
    cases hh
    rw [hfs]
    exact ⟨position_le_furthest f fs, lastAt_furthest f fs, rfl⟩

/-- A formed failure reports on what it contributes to a choice. -/
theorem Formed.reports (hf : f.Formed) : f.Reports f.spliced := by
  by_cases hkind : f.kind = .allAlternativesFailed
  · obtain ⟨-, hh⟩ := hf.of_choice hkind
    rw [spliced_of_alternatives hh]
    exact reports_of_alternatives hh
  · rw [spliced_of_kind hkind]
    refine ⟨List.forall_mem_singleton.2 le_rfl, by simp [lastAt], ?_⟩
    have htexts : textsAt f.position [f] = f.expected := by simp [textsAt]
    have hadd : addNew [] f.expected = f.expected := addNew_of_nodup hf.nodup
    rw [← hadd, ← htexts]
    rfl

theorem Reports.position_le (hb : b.Reports fs) (hle : ∀ f ∈ fs, f.position ≤ p) :
    b.position ≤ p := by
  obtain ⟨f, hf, hposition, -⟩ := exists_of_lastAt hb.message
  rw [← hposition]
  exact hle f hf

/-- At a position that it does not get beyond, a failure has the message of the failures
    that it reports on. -/
theorem Reports.lastAt_eq (hb : b.Reports fs) (hle : b.position ≤ p) :
    lastAt p fs = lastAt p [b] := by
  rcases hle.eq_or_lt with rfl | hlt
  · rw [hb.message]
    simp [lastAt]
  · have hfs : ∀ f ∈ fs, f.position < p := fun f hf => (hb.position f hf).trans_lt hlt
    unfold lastAt
    rw [filter_position_eq_nil hfs, filter_position_eq_nil (List.forall_mem_singleton.2 hlt)]

/-- Likewise it adds the same texts to a list as these failures. -/
theorem Reports.addNew_eq (hb : b.Reports fs) (hle : b.position ≤ p) (seen : List String) :
    addNew seen (textsAt p fs) = addNew seen (textsAt p [b]) := by
  rcases hle.eq_or_lt with rfl | hlt
  · have hself : textsAt b.position [b] = addNew [] (textsAt b.position fs) := by
      rw [← expectedAt_eq, ← hb.expected]
      simp [textsAt]
    rw [hself, addNew_addNew]
    rfl
  · have hfs : ∀ f ∈ fs, f.position < p := fun f hf => (hb.position f hf).trans_lt hlt
    unfold textsAt
    rw [filter_position_eq_nil hfs, filter_position_eq_nil (List.forall_mem_singleton.2 hlt)]

theorem lastAt_flatMap {part : Failure → List Failure}
    (hbs : ∀ b ∈ bs, lastAt p (part b) = lastAt p [b]) :
    lastAt p (bs.flatMap part) = lastAt p bs := by
  induction bs with
  | nil => rfl
  | cons b bs ih =>
    obtain ⟨hb, hbs⟩ := List.forall_mem_cons.1 hbs
    rw [List.flatMap_cons, lastAt_append, hb, ih hbs, ← lastAt_cons]

theorem addNew_flatMap {part : Failure → List Failure}
    (hbs : ∀ b ∈ bs, ∀ seen, addNew seen (textsAt p (part b)) = addNew seen (textsAt p [b]))
    (seen : List String) :
    addNew seen (textsAt p (bs.flatMap part)) = addNew seen (textsAt p bs) := by
  induction bs generalizing seen with
  | nil => rfl
  | cons b bs ih =>
    obtain ⟨hb, hbs⟩ := List.forall_mem_cons.1 hbs
    rw [List.flatMap_cons, textsAt_append, addNew_append, hb, ih hbs, ← addNew_append,
      ← textsAt_append, List.singleton_append]

/-- A report on what the branches report on is a report on the branches. -/
theorem Reports.branches {part : Failure → List Failure} (hbs : ∀ b ∈ bs, b.Reports (part b))
    (hh : h.Reports (bs.flatMap part)) : h.Reports bs := by
  have hle : ∀ b ∈ bs, b.position ≤ h.position := by
    intro b hb
    exact (hbs b hb).position_le fun f hf => hh.position f (List.mem_flatMap.2 ⟨b, hb, hf⟩)
  have hlast : lastAt h.position (bs.flatMap part) = lastAt h.position bs :=
    lastAt_flatMap fun b hb => (hbs b hb).lastAt_eq (hle b hb)
  have htexts (seen : List String) :
      addNew seen (textsAt h.position (bs.flatMap part)) = addNew seen (textsAt h.position bs) :=
    addNew_flatMap (fun b hb => (hbs b hb).addNew_eq (hle b hb)) seen
  refine ⟨hle, hlast ▸ hh.message, ?_⟩
  rw [hh.expected, expectedAt_eq, expectedAt_eq, htexts]

/-- Two reports on the same failures in different orders have the position and the expected
    texts in common. -/
theorem Reports.perm (hf : f.Reports fs) (hg : g.Reports gs) (hperm : fs.Perm gs) :
    g.position = f.position ∧ ∀ e, e ∈ g.expected ↔ e ∈ f.expected := by
  have hle : f.position ≤ g.position :=
    hf.position_le fun x hx => hg.position x (hperm.mem_iff.1 hx)
  have hge : g.position ≤ f.position :=
    hg.position_le fun x hx => hf.position x (hperm.mem_iff.2 hx)
  have hposition : g.position = f.position := le_antisymm hge hle
  refine ⟨hposition, fun e => ?_⟩
  rw [hf.expected, hg.expected, hposition, mem_expectedAt, mem_expectedAt]
  simp only [hperm.mem_iff]

/-! ## Choices none of whose branches matched -/

theorem spliced_eq_nil_iff : f.spliced = [] ↔ f.kind = .allAlternativesFailed ∧ f.causes = [] := by
  by_cases hkind : f.kind = .allAlternativesFailed
  · simp [spliced_of_choice hkind, hkind]
  · simp [spliced_of_kind hkind, hkind]

theorem Formed.spliced_ne_nil (hf : f.Formed) : f.spliced ≠ [] := by
  intro hnil
  have hmessage := hf.reports.message
  rw [hnil] at hmessage
  cases hmessage

theorem noneMatched_of_alternatives (hh : alternatives? bs = some h) :
    Parser.noneMatched bs = pure (.failure h) := by
  rw [Parser.noneMatched, hh]

theorem run_noneMatched (bs : List Failure) (env : Env) (s : State) :
    ((Parser.noneMatched bs).run env s).1 =
      (alternatives? bs).elim (.error .noBranch) fun h => .ok (.failure h) := by
  unfold Parser.noneMatched
  cases alternatives? bs <;> rfl

theorem alternatives_of_noneMatched (hh : Parser.noneMatched bs = pure (.failure h)) :
    alternatives? bs = some h := by
  have hrun := run_noneMatched bs { rules := .nested } {}
  rw [hh] at hrun
  cases hg : alternatives? bs with
  | none =>
    rw [hg] at hrun
    cases hrun
  | some g =>
    rw [hg] at hrun
    cases hrun
    rfl

theorem noneMatched_eq_raise_iff :
    Parser.noneMatched bs = Eval.raise .noBranch ↔ alternatives? bs = none := by
  constructor
  · intro heq
    have hrun := run_noneMatched bs { rules := .nested } {}
    rw [heq] at hrun
    cases hh : alternatives? bs with
    | none => rfl
    | some h =>
      rw [hh] at hrun
      cases hrun
  · intro hh
    rw [Parser.noneMatched, hh]

/-- A choice none of whose branches matched is stopped by a fault if its branches contribute
    nothing, which failures that grammars produce never do. With these it reports the
    furthest position, the message of the last branch that got there, and all that the
    branches there expected, each text once, where it first occurs. What the branches are
    made of only shows in the causes. In another order, the branches lead to the same
    position and the same expected texts. -/
theorem noneMatched_report (bs : List Failure) :
    (Parser.noneMatched bs = Eval.raise .noBranch ↔
      ∀ b ∈ bs, b.kind = .allAlternativesFailed ∧ b.causes = []) ∧
    (bs ≠ [] → (∀ b ∈ bs, b.Produced) →
      ∃ h, Parser.noneMatched bs = pure (.failure h) ∧
        (∀ b ∈ bs, b.position ≤ h.position) ∧ (∃ b ∈ bs, b.position = h.position) ∧
        lastAt h.position bs = some h.message ∧
        h.expected = (textsAt h.position bs).eraseDups ∧
        h.kind = .allAlternativesFailed ∧ h.index = none ∧ h.causes = bs.flatMap spliced) ∧
    ∀ bs' h, bs.Perm bs' → Parser.noneMatched bs = pure (.failure h) →
      ∃ h', Parser.noneMatched bs' = pure (.failure h') ∧
        h'.position = h.position ∧ ∀ e, e ∈ h'.expected ↔ e ∈ h.expected := by
  refine ⟨?_, fun hne hbs => ?_, fun bs' h hperm hh => ?_⟩
  · rw [noneMatched_eq_raise_iff, alternatives?_eq_none_iff, List.flatMap_eq_nil_iff]
    simp only [spliced_eq_nil_iff]
  · obtain ⟨b, hb⟩ := List.exists_mem_of_ne_nil bs hne
    obtain ⟨h, hh⟩ := exists_alternatives hb (hbs b hb).formed.spliced_ne_nil
    have hreports : h.Reports bs :=
      .branches (fun b hb => (hbs b hb).formed.reports) (reports_of_alternatives hh)
    obtain ⟨f, hf, hposition, -⟩ := exists_of_lastAt hreports.message
    refine ⟨h, noneMatched_of_alternatives hh, hreports.position, ⟨f, hf, hposition⟩,
      hreports.message, ?_, kind_of_alternatives hh, index_of_alternatives hh,
      (eq_of_alternatives hh).1⟩
    rw [hreports.expected, expectedAt_eq, addNew_nil_eq_eraseDups]
  · have hh := alternatives_of_noneMatched hh
    have hspliced : (bs.flatMap spliced).Perm (bs'.flatMap spliced) := hperm.flatMap_right spliced
    cases hh' : alternatives? bs' with
    | none =>
      rw [alternatives?_eq_none_iff.1 hh', List.perm_nil, ← alternatives?_eq_none_iff, hh]
        at hspliced
      cases hspliced
    | some h' =>
      refine ⟨h', noneMatched_of_alternatives hh', ?_⟩
      exact (reports_of_alternatives hh).perm (reports_of_alternatives hh') hspliced

/-- A rule that is a choice, and a letter. The rule gets further. -/
theorem noneMatched_report_nested :
    ∃ f g, f.Produced ∧ g.Produced ∧ f.kind = .allAlternativesFailed ∧
      ∃ h, Parser.noneMatched [f, g] = pure (.failure h) ∧
        h.position = 1 ∧ h.message = f.message ∧ h.expected = f.expected ∧
        h.causes = f.causes ++ [g] := by
  let env : Env := { rules := .nested, scope := some { guard := ⟨9, 0⟩ } }
  let c : Cursor := .start #['(', 'y']
  have hrules : env.rules.Use .bare := Rules.nested_use _ fun _ => trivial
  have hproduced (g : Grammar) (hg : g.Uses .bare) (f : Failure) (s' : State)
      (h : (g.call c).run env {} = (.ok (.failure f), s')) : f.Produced :=
    ⟨.bare, env, g, c, {}, s', fun _ => id, hrules, hg, State.faithful_init _, h⟩
  have hf := hproduced (.ref "nested") trivial _ _ rfl
  have hg := hproduced (.char 'y') trivial _ _ rfl
  refine ⟨_, _, hf, hg, rfl, ?_⟩
  obtain ⟨h, hh, -⟩ := (noneMatched_report _).2.1 (List.cons_ne_nil _ _)
    (List.forall_mem_cons.2 ⟨hf, List.forall_mem_singleton.2 hg⟩)
  have heq := alternatives_of_noneMatched hh
  cases heq
  exact ⟨_, hh, rfl, rfl, rfl, rfl⟩

end Failure

end Descent
