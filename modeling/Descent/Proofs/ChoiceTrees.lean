-- SUMMARY: How choices are nested makes no difference: only the sequence of their branches counts.
import Descent.Proofs.Soundness

/-! # Nested choices

A choice may have choices among its branches. However choices of two and of several are
nested, they do what one choice among all the branches does that are not choices put
together here: `ChoiceTree.run_eq_of_leaves_eq`. These branches are any parsers, and they may
answer with failed choices of their own. They only have to name the causes of such a
failure, because one without causes contributes nothing and a choice that only has such
branches is stopped by a fault. -/

namespace Descent

/-! ## Branches in turn -/

namespace Parser

section Turns

variable {env : Env} {c : Cursor} {p : Parser} {ps qs : List Parser} {s s₁ s' : State}
  {f : Failure} {fs gs : List Failure} {r : Except Fault Outcome × State}

/-- The parsers fail at the cursor one after the other, each in the state that the one
    before it left. -/
inductive AllFail (env : Env) (c : Cursor) : List Parser → State → List Failure → State → Prop
  | nil {s : State} : AllFail env c [] s [] s
  | cons {p : Parser} {ps : List Parser} {s s₁ s' : State} {f : Failure} {fs : List Failure} :
      (p.fn c).run env s = (.ok (.failure f), s₁) → AllFail env c ps s₁ fs s' →
      AllFail env c (p :: ps) s (f :: fs) s'

/-- One of the parsers decides how the choice among them ends: those before it fail, it
    matches or is stopped, and those after it are not tried. -/
def Decides (env : Env) (c : Cursor) (ps : List Parser) (s : State)
    (r : Except Fault Outcome × State) : Prop :=
  ∃ before p after fs s₁, ps = before ++ p :: after ∧ AllFail env c before s fs s₁ ∧
    (p.fn c).run env s₁ = r ∧ ∀ f, r.1 ≠ .ok (.failure f)

theorem AllFail.append (hp : AllFail env c ps s fs s₁) (hq : AllFail env c qs s₁ gs s') :
    AllFail env c (ps ++ qs) s (fs ++ gs) s' := by
  induction hp with
  | nil => exact hq
  | cons hrun _ ih => exact .cons hrun (ih hq)

theorem Decides.append (hp : Decides env c ps s r) (qs : List Parser) :
    Decides env c (ps ++ qs) s r := by
  obtain ⟨before, p, after, fs, s₁, rfl, hbefore, hrun⟩ := hp
  exact ⟨before, p, after ++ qs, fs, s₁, by simp, hbefore, hrun⟩

theorem AllFail.decides (hp : AllFail env c ps s fs s₁) (hq : Decides env c qs s₁ r) :
    Decides env c (ps ++ qs) s r := by
  obtain ⟨before, q, after, gs, s₂, rfl, hbefore, hrun⟩ := hq
  exact ⟨ps ++ before, q, after, fs ++ gs, s₂, by simp, hp.append hbefore, hrun⟩

theorem AllFail.length_eq (h : AllFail env c ps s fs s') : fs.length = ps.length := by
  induction h with
  | nil => rfl
  | cons _ _ ih => rw [List.length_cons, List.length_cons, ih]

/-- A parser that does not fail decides. -/
theorem Decides.single (hrun : (p.fn c).run env s = r) (hr : ∀ f, r.1 ≠ .ok (.failure f)) :
    Decides env c [p] s r :=
  ⟨[], p, [], [], s, rfl, .nil, hrun, hr⟩

theorem run_tryEach_cons (hrun : (p.fn c).run env s = (.ok (.failure f), s₁))
    (failed : List Failure) :
    (tryEach failed (p :: ps) c).run env s = (tryEach (f :: failed) ps c).run env s₁ := by
  rw [tryEach, Eval.run_bind_of_ok hrun]

/-- Where all branches fail, their failures are combined in order. -/
theorem AllFail.run_tryEach (h : AllFail env c ps s fs s') (failed : List Failure) :
    (tryEach failed ps c).run env s = (noneMatched (failed.reverse ++ fs)).run env s' := by
  induction h generalizing failed with
  | nil => rw [tryEach, List.append_nil]
  | cons hfail _ ih =>
    rw [run_tryEach_cons hfail, ih, List.reverse_cons, List.append_assoc, List.singleton_append]

/-- Where a branch decides, the choice ends as that branch does. -/
theorem Decides.run_tryEach (h : Decides env c ps s r) (failed : List Failure) :
    (tryEach failed ps c).run env s = r := by
  obtain ⟨before, p, after, fs, s₁, rfl, hbefore, hrun, hr⟩ := h
  induction hbefore generalizing failed with
  | nil =>
    rw [List.nil_append, tryEach, Eval.run_bind, hrun]
    obtain ⟨e | ⟨v, n⟩ | f, s'⟩ := r
    · rfl
    · rfl
    · exact absurd rfl (hr f)
  | cons hfail _ ih => rw [List.cons_append, run_tryEach_cons hfail, ih _ hrun]

end Turns

/-! ## Causes -/

/-- An evaluation of the parser at the cursor that begins in a state of the kind ends in one,
    and if it answers with a failed choice, that has causes. -/
structure GivesCauses (kind : State → Prop) (env : Env) (c : Cursor) (p : Parser) : Prop where
  keeps : ∀ {s o s'}, kind s → (p.fn c).run env s = (.ok o, s') → kind s'
  causes : ∀ {s f s'}, kind s → (p.fn c).run env s = (.ok (.failure f), s') →
    f.kind = .allAlternativesFailed → f.causes ≠ []

variable {kind : State → Prop} {env : Env} {c : Cursor} {p : Parser}

/-- What such a parser fails with contributes to the choice that it is a branch of. -/
theorem GivesCauses.spliced_ne_nil (hp : p.GivesCauses kind env c) {s s' : State} {f : Failure}
    (hs : kind s) (hrun : (p.fn c).run env s = (.ok (.failure f), s')) : f.spliced ≠ [] := by
  by_cases hkind : f.kind = .allAlternativesFailed
  · rw [Failure.spliced_of_choice hkind]
    exact hp.causes hs hrun hkind
  · exact Failure.spliced_ne_nil_of_kind hkind

end Parser

/-- The parsers of a grammar give causes, as long as the rules that were built are what their
    builders hand back. -/
theorem Grammar.parser_givesCauses {parts : Parts} (hauthor : ∀ fn, ¬ parts.author fn) {env : Env}
    (hrules : env.rules.Use parts) {g : Grammar} (hg : g.Uses parts) (allowance : Nat)
    (c : Cursor) :
    (g.parser env allowance).GivesCauses (State.Faithful env.rules) env c := by
  have hsound := fun s => Grammar.parser_sound hauthor hrules hg allowance c s env s
  constructor
  · intro s o s' hs hrun
    have h := hsound s (Invariant.grown_holds hs parts)
    rw [hrun] at h
    exact h.2.2.faithful
  · intro s f s' hs hrun hkind
    have h := hsound s (Invariant.grown_holds hs parts)
    rw [hrun] at h
    rw [← Failure.spliced_of_choice hkind]
    exact h.1.spliced_ne_nil

/-! ## Trees of choices -/

/-- Parsers put together by choices of two and of several. -/
inductive ChoiceTree
  | leaf (p : Parser)
  | either (a b : ChoiceTree)
  | choice (first : ChoiceTree) (rest : List ChoiceTree)

namespace ChoiceTree

mutual
/-- The parsers that are put together, from left to right. -/
def leaves : ChoiceTree → List Parser
  | .leaf p => [p]
  | .either a b => a.leaves ++ b.leaves
  | .choice t ts => t.leaves ++ allLeaves ts

/-- The parsers that are put together in several trees. -/
def allLeaves : List ChoiceTree → List Parser
  | [] => []
  | t :: ts => t.leaves ++ allLeaves ts
end

mutual
/-- The parser that a tree stands for. -/
def parser : ChoiceTree → Parser
  | .leaf p => p
  | .either a b => a.parser.either b.parser
  | .choice t ts => t.parser.choice (parsers ts)

/-- The parsers that several trees stand for. -/
def parsers : List ChoiceTree → List Parser
  | [] => []
  | t :: ts => t.parser :: parsers ts
end

/-- The tree is a choice and not one of the parsers put together. -/
def IsChoice : ChoiceTree → Prop
  | .leaf _ => False
  | .either _ _ => True
  | .choice _ _ => True

/-- The branches of a choice. -/
def branches : ChoiceTree → List ChoiceTree
  | .leaf _ => []
  | .either a b => [a, b]
  | .choice t ts => t :: ts

/-- Induction over trees, for choices of both kinds at once. -/
@[elab_as_elim]
theorem induct {motive : ChoiceTree → Prop} (leaf : ∀ p, motive (.leaf p))
    (choice : ∀ t, t.IsChoice → (∀ u ∈ t.branches, motive u) → motive t) (t : ChoiceTree) :
    motive t :=
  @ChoiceTree.rec motive (fun ts => ∀ u ∈ ts, motive u) leaf
    (fun a b ha hb => choice (.either a b) trivial
      (List.forall_mem_cons.2 ⟨ha, List.forall_mem_singleton.2 hb⟩))
    (fun t ts ht hts => choice (.choice t ts) trivial (List.forall_mem_cons.2 ⟨ht, hts⟩))
    (fun _ h => absurd h List.not_mem_nil)
    (fun _ _ ht hts => List.forall_mem_cons.2 ⟨ht, hts⟩) t

theorem allLeaves_eq_flatMap (ts : List ChoiceTree) : allLeaves ts = ts.flatMap leaves := by
  induction ts with
  | nil => rfl
  | cons t ts ih => rw [allLeaves, ih, List.flatMap_cons]

theorem parsers_eq_map (ts : List ChoiceTree) : parsers ts = ts.map parser := by
  induction ts with
  | nil => rfl
  | cons t ts ih => rw [parsers, ih, List.map_cons]

section Choices

variable {t u : ChoiceTree}

theorem IsChoice.leaves_eq (h : t.IsChoice) : t.leaves = t.branches.flatMap leaves := by
  cases t with
  | leaf p => exact h.elim
  | either a b => simp [leaves, branches]
  | choice t ts => rw [leaves, allLeaves_eq_flatMap, branches, List.flatMap_cons]

/-- A choice of two is a choice of several, too. -/
theorem IsChoice.fn_eq (h : t.IsChoice) (c : Cursor) :
    t.parser.fn c = Parser.tryEach [] (t.branches.map parser) c := by
  cases t with
  | leaf p => exact h.elim
  | either a b => rfl
  | choice t ts => rw [parser, parsers_eq_map]; rfl

theorem IsChoice.branches_ne_nil (h : t.IsChoice) : t.branches ≠ [] := by
  cases t with
  | leaf p => exact h.elim
  | either a b | choice t ts => exact List.cons_ne_nil _ _

end Choices

/-! ## What a tree does -/

section Ends

variable {kind : State → Prop} {env : Env} {c : Cursor} {t u : ChoiceTree} {s : State}

/-- The leaves of a tree fail in turn, and the tree with a failure that stands for theirs. -/
structure Fails (kind : State → Prop) (env : Env) (c : Cursor) (t : ChoiceTree) (s : State)
    (fs : List Failure) (g : Failure) (s' : State) : Prop where
  leaves : Parser.AllFail env c t.leaves s fs s'
  run : (t.parser.fn c).run env s = (.ok (.failure g), s')
  spliced : g.spliced = fs.flatMap Failure.spliced
  spliced_ne_nil : g.spliced ≠ []
  kept : kind s'

/-- The tree fails because its leaves do, or it ends as one of them decides. -/
def Ends (kind : State → Prop) (env : Env) (c : Cursor) (t : ChoiceTree) (s : State) : Prop :=
  (∃ fs g s', t.Fails kind env c s fs g s') ∨
    Parser.Decides env c t.leaves s ((t.parser.fn c).run env s)

theorem leaf_ends {p : Parser} (hp : p.GivesCauses kind env c) (hs : kind s) :
    (leaf p).Ends kind env c s := by
  cases hrun : (p.fn c).run env s with
  | mk r s' =>
    obtain e | ⟨v, n⟩ | f := r
    · exact .inr (.single rfl (by simp [parser, hrun]))
    · exact .inr (.single rfl (by simp [parser, hrun]))
    · have hspliced : f.spliced = [f].flatMap Failure.spliced := by simp
      exact .inl ⟨[f], f, s', .cons hrun .nil, hrun, hspliced, hp.spliced_ne_nil hs hrun,
        hp.keeps hs hrun⟩

/-- The branches of a choice end in turn as their leaves do. -/
theorem branches_end {us : List ChoiceTree}
    (hus : ∀ u ∈ us, ∀ s, kind s → u.Ends kind env c s) (hs : kind s) :
    (∃ fs gs s', Parser.AllFail env c (us.flatMap leaves) s fs s' ∧
        Parser.AllFail env c (us.map parser) s gs s' ∧
        gs.flatMap Failure.spliced = fs.flatMap Failure.spliced ∧
        (∀ g ∈ gs, g.spliced ≠ []) ∧ kind s') ∨
      ∃ r, Parser.Decides env c (us.flatMap leaves) s r ∧
        Parser.Decides env c (us.map parser) s r := by
  induction us generalizing s with
  | nil => exact .inl ⟨[], [], s, .nil, .nil, rfl, nofun, hs⟩
  | cons u us ih =>
    rw [List.flatMap_cons, List.map_cons]
    rcases hus u List.mem_cons_self s hs with ⟨fs, g, s₁, hu⟩ | hu
    · have hfirst : Parser.AllFail env c [u.parser] s [g] s₁ := .cons hu.run .nil
      have hrest := ih (fun v hv => hus v (List.mem_cons_of_mem u hv)) hu.kept
      rcases hrest with ⟨fs', gs, s', hleaves, hparsers, heq, hgs, hs'⟩ | ⟨r, hleaves, hparsers⟩
      · refine .inl ⟨fs ++ fs', g :: gs, s', hu.leaves.append hleaves, hfirst.append hparsers, ?_,
          List.forall_mem_cons.2 ⟨hu.spliced_ne_nil, hgs⟩, hs'⟩
        rw [List.flatMap_cons, List.flatMap_append, hu.spliced, heq]
      · exact .inr ⟨r, hu.leaves.decides hleaves, hfirst.decides hparsers⟩
    · have hr : ∀ f, ((u.parser.fn c).run env s).1 ≠ .ok (.failure f) := by
        obtain ⟨_, _, _, _, _, -, -, -, hr⟩ := hu
        exact hr
      have hfirst : Parser.Decides env c [u.parser] s ((u.parser.fn c).run env s) := .single rfl hr
      exact .inr ⟨_, hu.append _, hfirst.append _⟩

/-- A choice fails with the failures of its leaves combined, or ends as one of them decides. -/
theorem IsChoice.fails_or_decides (ht : t.IsChoice)
    (hus : ∀ u ∈ t.branches, ∀ s, kind s → u.Ends kind env c s) (hs : kind s) :
    (∃ fs g s', t.Fails kind env c s fs g s' ∧ Failure.alternatives? fs = some g) ∨
      Parser.Decides env c t.leaves s ((t.parser.fn c).run env s) := by
  have hleaves := ht.leaves_eq
  rcases branches_end hus hs with ⟨fs, gs, s', hfs, hgs, heq, hcauses, hs'⟩ | ⟨r, hfs, hgs⟩
  · obtain ⟨g, hg⟩ : ∃ g, g ∈ gs := by
      refine List.exists_mem_of_length_pos ?_
      rw [hgs.length_eq, List.length_map]
      exact List.length_pos_iff.2 ht.branches_ne_nil
    obtain ⟨h, hh⟩ := Failure.exists_alternatives hg (hcauses g hg)
    have hrun : (t.parser.fn c).run env s = (.ok (.failure h), s') := by
      rw [ht.fn_eq, hgs.run_tryEach, List.reverse_nil, List.nil_append, Parser.noneMatched, hh]
      rfl
    have hspliced : h.spliced = fs.flatMap Failure.spliced :=
      (Failure.spliced_of_alternatives hh).trans heq
    rw [Failure.alternatives?_congr heq] at hh
    rw [← hleaves] at hfs
    exact .inl ⟨fs, h, s', ⟨hfs, hrun, hspliced, Failure.spliced_alternatives_ne_nil hh, hs'⟩, hh⟩
  · rw [ht.fn_eq, hgs.run_tryEach, hleaves]
    exact .inr hfs

theorem ends (hp : ∀ p ∈ t.leaves, p.GivesCauses kind env c) (hs : kind s) :
    t.Ends kind env c s := by
  induction t using induct generalizing s with
  | leaf p => exact leaf_ends (hp p List.mem_cons_self) hs
  | choice t ht ih =>
    rw [ht.leaves_eq] at hp
    have hus : ∀ u ∈ t.branches, ∀ s, kind s → u.Ends kind env c s := by
      intro u hu s hs
      exact ih u hu (fun p hmem => hp p (List.mem_flatMap.2 ⟨u, hu, hmem⟩)) hs
    rcases ht.fails_or_decides hus hs with ⟨fs, g, s', hfails, -⟩ | hdecides
    · exact .inl ⟨fs, g, s', hfails⟩
    · exact .inr hdecides

/-- A choice of choices does what one choice among its leaves does. -/
theorem IsChoice.course (ht : t.IsChoice) (hp : ∀ p ∈ t.leaves, p.GivesCauses kind env c)
    (hs : kind s) :
    (∃ fs g s', Parser.AllFail env c t.leaves s fs s' ∧ Failure.alternatives? fs = some g ∧
        (t.parser.fn c).run env s = (.ok (.failure g), s')) ∨
      Parser.Decides env c t.leaves s ((t.parser.fn c).run env s) := by
  have hus : ∀ u ∈ t.branches, ∀ s, kind s → u.Ends kind env c s := by
    intro u hu s hs
    refine ends (fun p hmem => hp p ?_) hs
    rw [ht.leaves_eq]
    exact List.mem_flatMap.2 ⟨u, hu, hmem⟩
  rcases ht.fails_or_decides hus hs with ⟨fs, g, s', hfails, hh⟩ | hdecides
  · exact .inl ⟨fs, g, s', hfails.leaves, hh, hfails.run⟩
  · exact .inr hdecides

theorem IsChoice.run_eq_tryEach (ht : t.IsChoice)
    (hp : ∀ p ∈ t.leaves, p.GivesCauses kind env c) (hs : kind s) :
    (t.parser.fn c).run env s = (Parser.tryEach [] t.leaves c).run env s := by
  rcases ht.course hp hs with ⟨fs, g, s', hleaves, hh, hrun⟩ | hdecides
  · rw [hrun, hleaves.run_tryEach, List.reverse_nil, List.nil_append, Parser.noneMatched, hh]
    rfl
  · exact (hdecides.run_tryEach []).symm

end Ends

/-- Two choices of whatever nesting that put the same parsers together do the same at every
    cursor. They try these parsers in order until one does not fail, each of them at this
    cursor, and fail with all their failures combined if none is left. -/
theorem run_eq_of_leaves_eq {t u : ChoiceTree} (ht : t.IsChoice) (hu : u.IsChoice)
    (hleaves : u.leaves = t.leaves) {kind : State → Prop} {env : Env} {c : Cursor}
    (hp : ∀ p ∈ t.leaves, p.GivesCauses kind env c) {s : State} (hs : kind s) :
    (u.parser.fn c).run env s = (t.parser.fn c).run env s ∧
      ((∃ fs g s', Parser.AllFail env c t.leaves s fs s' ∧ Failure.alternatives? fs = some g ∧
          (t.parser.fn c).run env s = (.ok (.failure g), s')) ∨
        Parser.Decides env c t.leaves s ((t.parser.fn c).run env s)) := by
  have hp' : ∀ p ∈ u.leaves, p.GivesCauses kind env c := by
    rw [hleaves]
    exact hp
  refine ⟨?_, ht.course hp hs⟩
  rw [hu.run_eq_tryEach hp' hs, ht.run_eq_tryEach hp hs, hleaves]

/-- The middle branch is a rule that is a choice itself, and it gets further than the others. -/
theorem run_eq_of_leaves_eq_nested :
    let env : Env := { rules := .nested, scope := some { guard := ⟨9, 0⟩ } }
    let c : Cursor := .start #['(', 'y']
    let leaf (g : Grammar) : ChoiceTree := .leaf (g.parser env 9)
    let t : ChoiceTree := .either (.either (leaf (.char 'x')) (leaf (.ref "nested"))) (leaf .eof)
    let u : ChoiceTree :=
      .choice (leaf (.char 'x')) [.choice (.either (leaf (.ref "nested")) (leaf .eof)) []]
    u.leaves = t.leaves ∧ (u.parser.fn c).run env {} = (t.parser.fn c).run env {} ∧
      ∃ f s', (t.parser.fn c).run env {} = (.ok (.failure f), s') ∧ f.position = 1 ∧
        f.causes.length = 5 := by
  intro env c leaf t u
  have hrules : env.rules.Use .bare := Rules.nested_use _ fun _ => trivial
  have hleaf (g : Grammar) (hg : g.Uses .bare) :
      (g.parser env 9).GivesCauses (State.Faithful env.rules) env c :=
    Grammar.parser_givesCauses (fun _ => id) hrules hg 9 c
  have hp : ∀ p ∈ t.leaves, p.GivesCauses (State.Faithful env.rules) env c :=
    List.forall_mem_cons.2 ⟨hleaf _ trivial, List.forall_mem_cons.2
      ⟨hleaf _ trivial, List.forall_mem_singleton.2 (hleaf _ trivial)⟩⟩
  have h := run_eq_of_leaves_eq (t := t) (u := u) trivial trivial rfl hp (State.faithful_init _)
  exact ⟨rfl, h.1, _, _, rfl, rfl, rfl⟩

end ChoiceTree

end Descent
