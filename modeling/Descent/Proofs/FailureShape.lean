-- SUMMARY: Every failure in a tree has the shape of its kind and comes from a part of the grammar.
import Descent.Proofs.ChoiceReport
import Descent.Proofs.Peg

/-! # The shape of failures

The kind of a failure says how many causes it has and how its position, message and list
follow from them (`Failure.Shape`). This much can be read off the ways in which failures
are made. Which element of which sequence a failure is about cannot, because a failure does
not name its parser. So each failure in a tree is traced to the part of the grammar that
made it, at the cursor where it was tried: `Yields.accounted`.

The relation `Yields` takes sequences and choices apart from the front, and what follows
the first element of a sequence is a sequence that nobody wrote down. The failures that
such a rest makes itself are not in the tree, but their causes are. This is why the parts
*below* a grammar answer for the causes of its failure, and the grammar itself only for the
failure. -/

namespace Descent

/-! ## Shapes -/

/-- What the kind of a failure says about it. -/
structure Failure.Shape (f : Failure) : Prop where
  plain : f.kind.IsPlain → f.causes = [] ∧ f.index = none
  element : f.kind = .sequenceElementFailed → ∃ (k : Nat) (cause : Failure),
    f.index = some (k : Int) ∧ f.causes = [cause] ∧
      f.position = cause.position ∧ f.message = cause.message ∧ f.expected = cause.expected
  choice : f.kind = .allAlternativesFailed → f.index = none ∧
    (∃ cause ∈ f.causes, cause.position = f.position) ∧
    ∀ cause ∈ f.causes, cause.kind ≠ .allAlternativesFailed ∧ cause.position ≤ f.position
  repetition : f.kind = .insufficientRepetition → f.index = none ∧
    ∃ cause, f.causes = [cause] ∧ f.position ≤ cause.position ∧ f.expected = cause.expected
  expected : f.expected.Nodup

theorem Failure.Formed.shape {f : Failure} (hf : f.Formed) : f.Shape := by
  cases hf with
  | plain position hplain hd =>
    obtain ⟨helement, hchoice, hrepetition⟩ := hplain.ne
    exact ⟨fun _ => ⟨rfl, rfl⟩, (absurd · helement), (absurd · hchoice), (absurd · hrepetition), hd⟩
  | element k hd => exact ⟨False.elim, fun _ => ⟨k, _, rfl, rfl, rfl, rfl, rfl⟩, nofun, nofun, hd⟩
  | insufficient parser hd hle =>
    exact ⟨False.elim, nofun, nofun, fun _ => ⟨rfl, _, rfl, hle, rfl⟩, hd⟩
  | alternatives hfs hh =>
    have hformed : f.Formed := .alternatives hfs hh
    have hkind : f.kind = .allAlternativesFailed := kind_of_alternatives hh
    obtain ⟨hflat, -⟩ := hformed.of_choice hkind
    obtain ⟨-, ⟨e, he, hposition, -⟩, -⟩ := eq_of_alternatives hh
    have hreports : f.Reports f.causes := spliced_of_choice hkind ▸ hformed.reports
    refine ⟨?_, ?_, fun _ => ⟨index_of_alternatives hh, ⟨e, he, hposition⟩, ?_⟩, ?_, hformed.nodup⟩
    · rw [hkind]
      exact False.elim
    · rw [hkind]
      exact nofun
    · exact fun cause hcause => ⟨hflat cause hcause, hreports.position cause hcause⟩
    · rw [hkind]
      exact nofun

/-! ## The parts of a grammar -/

namespace Grammar

/-- The grammars that a grammar tries in its own run. A run that a mapping function starts
    is another one. -/
def children (rules : Rules) : Grammar → List Grammar
  | .char _ | .literal _ | .satisfy .. | .eof | .spaces | .author .. => []
  | .either a b | .both a b | .sepBy a b | .sepBy1 a b => [a, b]
  | .choice p ps | .seq p ps => p :: ps
  | .between o p c => [o, p, c]
  | .absent p | .many p | .many1 p | .optional p | .token p | .map p _ | .mapRun p _ _
  | .named _ p | .mark _ p => [p]
  | .ref r => (rules r).body.parser?.toList

theorem mem_children_ref {rules : Rules} {r : Rule} {g : Grammar}
    (h : (rules r).body.parser? = some g) : g ∈ (ref r).children rules := by
  rw [children, h]
  exact List.mem_cons_self

/-- A grammar has the other one in it, or tries a rule that has. -/
inductive Reaches (rules : Rules) : Grammar → Grammar → Prop
  | self (g : Grammar) : Reaches rules g g
  | child {g h k : Grammar} : h ∈ g.children rules → Reaches rules h k → Reaches rules g k

/-- The grammar makes failures of its own, other than those of choices. All others pass on
    the failures of their parts. -/
def Makes : Grammar → Prop
  | .char _ | .literal _ | .satisfy .. | .eof | .absent _ | .seq .. | .many1 _ => True
  | _ => False

/-- The grammars in a grammar that make failures. -/
def Makers (rules : Rules) (g h : Grammar) : Prop := g.Reaches rules h ∧ h.Makes

/-- The grammars in the children of a grammar that make failures. -/
def InnerMakers (rules : Rules) (g h : Grammar) : Prop :=
  ∃ k ∈ g.children rules, k.Makers rules h

section Makers

variable {rules : Rules} {g h k p q : Grammar} {qs : List Grammar}

theorem InnerMakers.makers (h : g.InnerMakers rules k) : g.Makers rules k := by
  obtain ⟨q, hq, hreaches, hmakes⟩ := h
  exact ⟨.child hq hreaches, hmakes⟩

/-- A grammar that makes no failures has its makers in its children. -/
theorem Makers.inner (h : g.Makers rules k) (hg : ¬ g.Makes) : g.InnerMakers rules k := by
  obtain ⟨hreaches, hmakes⟩ := h
  cases hreaches with
  | self => exact absurd hmakes hg
  | child hq hreaches => exact ⟨_, hq, hreaches, hmakes⟩

theorem innerMakers_mono {g g' : Grammar} (hsub : g.children rules ⊆ g'.children rules)
    (h : g.InnerMakers rules k) : g'.InnerMakers rules k := by
  obtain ⟨q, hq, hmakers⟩ := h
  exact ⟨q, hsub hq, hmakers⟩

/-- The branches after the first are branches of the choice. -/
theorem innerMakers_choice (h : (either p (choice q qs)).InnerMakers rules k) :
    (choice p (q :: qs)).InnerMakers rules k := by
  obtain ⟨b, hb, hmakers⟩ := h
  rcases List.mem_cons.1 hb with rfl | hb
  · exact ⟨b, List.mem_cons_self, hmakers⟩
  · cases List.mem_singleton.1 hb
    exact innerMakers_mono (List.subset_cons_self _ _) (hmakers.inner id)

end Makers

end Grammar

/-! ## Where failures come from -/

namespace Failure

/-- One of the grammars answered with the failure at a cursor not before this one, unless
    it is the failure of a choice. -/
def MadeBy (rules : Rules) (makers : Grammar → Prop) (c : Cursor) (f : Failure) : Prop :=
  f.kind ≠ .allAlternativesFailed →
    ∃ h n, makers h ∧ c.Onward n ∧ Yields rules h n (.failure f)

/-- The makers in a grammar answer for a failure, and those in its children for all that
    caused it. -/
structure Accounted (rules : Rules) (g : Grammar) (c : Cursor) (f : Failure) : Prop where
  self : f.MadeBy rules (g.Makers rules) c
  causes : ∀ e ∈ f.causes, e.Throughout (MadeBy rules (g.InnerMakers rules) c)

section Accounted

variable {rules : Rules} {g k p q : Grammar} {qs : List Grammar} {c n : Cursor} {f h : Failure}
  {makers makers' : Grammar → Prop}

theorem MadeBy.mono (hmakers : ∀ k, makers k → makers' k) (hn : c.Onward n)
    (h : f.MadeBy rules makers n) : f.MadeBy rules makers' c := by
  intro hkind
  obtain ⟨k, m, hk, hm, hyields⟩ := h hkind
  exact ⟨k, m, hmakers k hk, hn.trans hm, hyields⟩

theorem Throughout.madeBy_mono (hmakers : ∀ k, makers k → makers' k) (hn : c.Onward n)
    (h : f.Throughout (MadeBy rules makers n)) : f.Throughout (MadeBy rules makers' c) :=
  fun e he => (h e he).mono hmakers hn

theorem Accounted.throughout (h : f.Accounted rules g c) :
    f.Throughout (MadeBy rules (g.Makers rules) c) := by
  refine throughout_iff.2 ⟨h.self, fun e he => ?_⟩
  exact (h.causes e he).madeBy_mono (fun _ => Grammar.InnerMakers.makers) (.refl c)

/-- What a child answers for, the children do. -/
theorem Accounted.inner (hk : k ∈ g.children rules) (hn : c.Onward n)
    (h : f.Accounted rules k n) : f.Throughout (MadeBy rules (g.InnerMakers rules) c) :=
  h.throughout.madeBy_mono (fun _ hmakers => ⟨k, hk, hmakers⟩) hn

/-- A grammar that passes the failure of a child on. -/
theorem Accounted.pass (hk : k ∈ g.children rules) (hn : c.Onward n)
    (h : f.Accounted rules k n) : f.Accounted rules g c := by
  have hinner := h.inner hk hn
  refine ⟨?_, (throughout_iff.1 hinner).2⟩
  exact (hinner f (.self f)).mono (fun _ => Grammar.InnerMakers.makers) (.refl c)

/-- The choice among all branches, after that between the first and the others. -/
theorem Accounted.choice (h : f.Accounted rules (.either p (.choice q qs)) c) :
    f.Accounted rules (.choice p (q :: qs)) c where
  self := h.self.mono (fun _ hk => (Grammar.innerMakers_choice (hk.inner id)).makers) (.refl c)
  causes := fun e he =>
    (h.causes e he).madeBy_mono (fun _ => Grammar.innerMakers_choice) (.refl c)

/-- A grammar that makes a failure of causes that are accounted for. -/
theorem Accounted.make (hg : g.Makes) (hy : Yields rules g c (.failure f))
    (hcauses : ∀ e ∈ f.causes, e.Throughout (MadeBy rules (g.InnerMakers rules) c)) :
    f.Accounted rules g c :=
  ⟨fun _ => ⟨g, c, ⟨.self g, hg⟩, .refl c, hy⟩, hcauses⟩

theorem Accounted.alternatives {bs : List Failure}
    (hbs : ∀ b ∈ bs, b.Throughout (MadeBy rules (g.InnerMakers rules) c))
    (hh : alternatives? bs = some h) : h.Accounted rules g c := by
  refine ⟨fun hkind => absurd (kind_of_alternatives hh) hkind, ?_⟩
  have hall : h.Throughout (MadeBy rules (g.InnerMakers rules) c) :=
    .alternatives hbs hh fun _ hkind => absurd (kind_of_alternatives hh) hkind
  exact (throughout_iff.1 hall).2

end Accounted

end Failure

/-- If the answer is a failure, the grammar accounts for it. -/
def Outcome.Accounted (rules : Rules) (g : Grammar) (c : Cursor) : Outcome → Prop
  | .success _ _ => True
  | .failure f => f.Accounted rules g c

theorem Outcome.Accounted.pass {rules : Rules} {g k : Grammar} {c n : Cursor} {o : Outcome}
    (hk : k ∈ g.children rules) (hn : c.Onward n) (h : o.Accounted rules k n) :
    o.Accounted rules g c := by
  cases o with
  | success => trivial
  | failure f => exact Failure.Accounted.pass hk hn h

/-- A grammar accounts for the failures that it yields. -/
theorem Yields.accounted {rules : Rules} {x : Piece} {c : Cursor} {o : Outcome}
    (h : Yields rules x c o) : o.Accounted rules x.grammar c := by
  induction h with
  | char | literal | satisfy | eof | spaces => trivial
  | char_end h => exact .make trivial (.char_end h) nofun
  | char_other h hne => exact .make trivial (.char_other h hne) nofun
  | literal_end h => exact .make trivial (.literal_end h) nofun
  | literal_other h hne => exact .make trivial (.literal_other h hne) nofun
  | satisfy_end h => exact .make trivial (.satisfy_end h) nofun
  | satisfy_other h htest => exact .make trivial (.satisfy_other h htest) nofun
  | eof_rest h => exact .make trivial (.eof_rest h) nofun
  | absent_found hp => exact .make trivial (.absent_found hp) nofun
  | either_first | either_second | choice_last | absent => trivial
  | either_none _ _ hh hf hg =>
    refine .alternatives (List.forall_mem_cons.2 ⟨?_, List.forall_mem_singleton.2 ?_⟩) hh
    · exact hf.inner List.mem_cons_self (.refl _)
    · exact hg.inner (List.mem_cons_of_mem _ List.mem_cons_self) (.refl _)
  | choice_none _ hh hf =>
    refine .alternatives (List.forall_mem_singleton.2 ?_) hh
    exact hf.inner List.mem_cons_self (.refl _)
  | @choice_next p q qs c o _ ih =>
    cases o with
    | success => trivial
    | failure f => exact Failure.Accounted.choice ih
  | both_first _ ih => exact ih.pass List.mem_cons_self (.refl _)
  | both _ _ _ ih => exact ih.pass (List.mem_cons_of_mem _ List.mem_cons_self) (.refl _)
  | seq_last | seq_next | between | token => trivial
  | seq_first hp ih =>
    refine .make trivial (.seq_first hp) (List.forall_mem_singleton.2 ?_)
    exact ih.inner List.mem_cons_self (.refl _)
  | seq_later hp hps _ ih =>
    refine .make trivial (.seq_later hp hps) (List.forall_mem_singleton.2 ?_)
    -- The rest of the elements is no part of the grammar, but the cause of its failure is
    -- from the elements themselves.
    have hcause := ih.causes _ List.mem_cons_self
    refine hcause.madeBy_mono (fun _ => ?_) hp.onward
    exact Grammar.innerMakers_mono (List.subset_cons_self _ _)
  | between_opening _ ih => exact ih.pass List.mem_cons_self (.refl _)
  | between_content ho _ _ ih =>
    exact ih.pass (List.mem_cons_of_mem _ List.mem_cons_self) ho.onward
  | between_closing ho hp _ _ _ ih =>
    refine ih.pass ?_ (ho.onward.trans hp.onward)
    exact List.mem_cons_of_mem _ (List.mem_cons_of_mem _ List.mem_cons_self)
  | many_end | many_still | many_more | many1_still | many1_more => trivial
  | many1_none hp ih =>
    refine .make trivial (.many1_none hp) (List.forall_mem_singleton.2 ?_)
    exact ih.inner List.mem_cons_self (.refl _)
  | optional | optional_none | rounds_end | rounds_back | rounds_still | rounds_more => trivial
  | sepBy_none | sepBy | sepBy1 | map | mapRun => trivial
  | token_first _ ih | sepBy1_none _ ih => exact ih.pass List.mem_cons_self (.refl _)
  | map_none _ ih | mapRun_none _ ih => exact ih.pass List.mem_cons_self (.refl _)
  | named _ ih | mark _ ih => exact ih.pass List.mem_cons_self (.refl _)
  | ref hbody _ ih => exact ih.pass (Grammar.mem_children_ref hbody) (.refl _)

/-- A leaf of a failure that a grammar yields was made in the grammar, at a cursor not before
    this one. -/
theorem Yields.leaf_made {rules : Rules} {g : Grammar} {c : Cursor} {f e : Failure}
    (h : Yields rules g c (.failure f)) (he : f.Contains e) (hleaf : e.causes = []) :
    ∃ m n, g.Makers rules m ∧ c.Onward n ∧ Yields rules m n (.failure e) := by
  have hkind : e.kind ≠ .allAlternativesFailed := by
    intro hkind
    obtain ⟨-, ⟨cause, hcause, -⟩, -⟩ := (h.formed e he).shape.choice hkind
    rw [hleaf] at hcause
    exact absurd hcause List.not_mem_nil
  exact h.accounted.throughout e he hkind

/-! ## Sequences -/

/-- The grammars match one after the other, until the one at the index fails as given. -/
inductive Grammar.FailAt (rules : Rules) : List Grammar → Cursor → Nat → Failure → Prop
  | here {p : Grammar} {ps : List Grammar} {c : Cursor} {f : Failure} :
      Yields rules p c (.failure f) → FailAt rules (p :: ps) c 0 f
  | later {p : Grammar} {ps : List Grammar} {c n : Cursor} {v : Value} {k : Nat} {f : Failure} :
      Yields rules p c (.success v n) → FailAt rules ps n k f → FailAt rules (p :: ps) c (k + 1) f

section Sequences

variable {rules : Rules} {g p : Grammar} {ps : List Grammar} {c : Cursor} {f e : Failure}

theorem Failure.ofElement_inj {j k : Nat} (h : f.ofElement j = e.ofElement k) : f = e ∧ j = k := by
  have hcauses : [f] = [e] := congrArg causes h
  have hindex : some (j : Int) = some (k : Int) := congrArg index h
  exact ⟨List.head_eq_of_cons_eq hcauses, Int.ofNat.inj (Option.some.inj hindex)⟩

/-- A sequence fails with the failure and the index of the first element that does. -/
theorem Yields.failAt (hy : Yields rules (.seq p ps : Grammar) c (.failure e)) :
    ∃ k f, e = f.ofElement k ∧ Grammar.FailAt rules (p :: ps) c k f := by
  induction ps generalizing p c e with
  | nil =>
    cases hy with
    | seq_first hp => exact ⟨0, _, rfl, .here hp⟩
  | cons q qs ih =>
    cases hy with
    | seq_first hp => exact ⟨0, _, rfl, .here hp⟩
    | seq_later hp hps =>
      obtain ⟨k, f, heq, hfail⟩ := ih hps
      obtain ⟨rfl, rfl⟩ := Failure.ofElement_inj heq
      exact ⟨_, _, rfl, .later hp hfail⟩

/-- Of the grammars that make failures, only sequences make those of an element. -/
theorem Yields.seq_of_kind (hg : g.Makes) (hy : Yields rules g c (.failure e))
    (hkind : e.kind = .sequenceElementFailed) : ∃ p ps, g = .seq p ps := by
  cases g with
  | seq p ps => exact ⟨p, ps, rfl⟩
  | char | literal | satisfy | eof | absent | many1 => cases hy <;> cases hkind
  | _ => exact hg.elim

end Sequences

/-- Every failure in the tree of an answer has the shape of its kind. The failure of an
    element of a sequence comes from a sequence in the grammar or in a rule that it tries:
    the elements before that element match one after the other, and it is the first one
    that fails. -/
theorem Grammar.call_shape {parts : Parts} (hauthor : ∀ fn, ¬ parts.author fn) {env : Env}
    (hrules : env.rules.Use parts) {g : Grammar} (hg : g.Uses parts) {s s' : State}
    (hs : s.Faithful env.rules) {c : Cursor} {f : Failure}
    (h : (g.call c).run env s = (.ok (.failure f), s')) {e : Failure} (he : f.Contains e) :
    e.Shape ∧
    (e.kind = .sequenceElementFailed → ∃ (p : Grammar) (ps : List Grammar) (n : Cursor) (k : Nat)
      (cause : Failure),
      g.Reaches env.rules (.seq p ps) ∧ c.Onward n ∧
        Yields env.rules (.seq p ps : Grammar) n (.failure e) ∧
        e.index = some (k : Int) ∧ e.causes = [cause] ∧
        FailAt env.rules (p :: ps) n k cause) := by
  have hyields : Yields env.rules g c (.failure f) := (yields_of_call hauthor hrules hg hs h).1
  refine ⟨(hyields.formed e he).shape, fun hkind => ?_⟩
  have hmade : e.MadeBy env.rules (g.Makers env.rules) c := hyields.accounted.throughout e he
  obtain ⟨m, n, ⟨hreaches, hmakes⟩, hn, hm⟩ := hmade (by rw [hkind]; nofun)
  obtain ⟨p, ps, rfl⟩ := hm.seq_of_kind hmakes hkind
  obtain ⟨k, cause, rfl, hfail⟩ := hm.failAt
  exact ⟨p, ps, n, k, cause, hreaches, hn, hm, rfl, rfl, hfail⟩

/-- In the brackets a rule fails whose branches are choices themselves. Neither the rule nor
    the brackets show in the failure. -/
theorem Grammar.call_shape_brackets :
    let env : Env := { rules := .nested, scope := some { guard := ⟨9, 0⟩ } }
    let inside : Grammar := .either (.ref "nested") (.char 'y')
    let g : Grammar := .seq (.char 'a') [.between (.char '[') inside (.char ']')]
    ∃ f e s', (g.call (.start #['a', '[', '(', 'b'])).run env {} = (.ok (.failure f), s') ∧
      f.index = some 1 ∧ f.causes = [e] ∧ e.kind = .allAlternativesFailed ∧
      e.causes.length = 4 ∧ e.Shape ∧
      ∃ p ps n cause, g.Reaches env.rules (.seq p ps) ∧ FailAt env.rules (p :: ps) n 1 cause := by
  intro env inside g
  have hrules : env.rules.Use .bare := Rules.nested_use _ fun _ => trivial
  have hg : g.Uses .bare := ⟨trivial, ⟨trivial, ⟨trivial, trivial⟩, trivial⟩, trivial⟩
  have hshape {f e : Failure} {s' : State}
      (h : (g.call (.start #['a', '[', '(', 'b'])).run env {} = (.ok (.failure f), s'))
      (he : f.Contains e) := call_shape (fun _ => id) hrules hg (State.faithful_init _) h he
  refine ⟨_, _, _, rfl, rfl, rfl, rfl, rfl, ?_, ?_⟩
  · exact (hshape rfl (.cause List.mem_cons_self (.self _))).1
  · obtain ⟨p, ps, n, k, cause, hreaches, -, -, hindex, -, hfail⟩ :=
      (hshape rfl (.self _)).2 rfl
    cases hindex
    exact ⟨p, ps, n, cause, hreaches, hfail⟩

end Descent
