-- SUMMARY: Answers stay between the cursor where the evaluation began and the end of the source.
import Descent.Proofs.RunFaults

/-! # Bounds

An evaluation that began at a cursor never looks back: a match ends between the cursor
and the end of the source, every failure in the tree of a failure lies there, and so
does the place at which a limit stops the evaluation. `Grammar.call_bounds` says all
three.

Failures are made from others in a few ways. What every failure inherits from its causes
(`Failure.Inherited`) holds in the whole tree of every failure that a grammar yields:
`Yields.inherits`. That it lies in bounds is inherited. -/

namespace Descent

/-! ## Trees of failures -/

namespace Failure

/-- The other failure is this one or one of its causes, at any depth. -/
inductive Contains : Failure → Failure → Prop
  | self (f : Failure) : Contains f f
  | cause {f e g : Failure} : e ∈ f.causes → Contains e g → Contains f g

/-- All failures in the tree have the property. -/
def Throughout (P : Failure → Prop) (f : Failure) : Prop := ∀ g, f.Contains g → P g

theorem throughout_iff {P : Failure → Prop} {f : Failure} :
    f.Throughout P ↔ P f ∧ ∀ e ∈ f.causes, e.Throughout P := by
  constructor
  · intro hf
    exact ⟨hf f (.self f), fun e he g hg => hf g (.cause he hg)⟩
  · intro hf g hg
    cases hg with
    | self => exact hf.1
    | cause he hg => exact hf.2 _ he _ hg

/-- A property of failures at a cursor that every failure has whose causes have it. What
    holds at a cursor holds at the cursors before it. -/
structure Inherited (P : Cursor → Failure → Prop) : Prop where
  back : ∀ {c n f}, c.Onward n → P n f → P c f
  leaf : ∀ (c : Cursor) (kind : FailureKind) (d : Diagnostic), P c (ofDiagnostic kind c.pos d)
  element : ∀ {c f} (index : Nat), P c f → P c (f.ofElement index)
  insufficient : ∀ {c f} (parser : String), P c f → P c (f.insufficient parser c)
  alternatives : ∀ {c bs h}, alternatives? bs = some h → (∀ g ∈ h.causes, P c g) → P c h

section Inherited

variable {P : Cursor → Failure → Prop} {c n : Cursor} {f h : Failure}

theorem Inherited.throughout_back (hP : Inherited P) (hn : c.Onward n)
    (hf : f.Throughout (P n)) : f.Throughout (P c) := fun g hg => hP.back hn (hf g hg)

theorem Inherited.throughout_leaf (hP : Inherited P) (c : Cursor) (kind : FailureKind)
    (d : Diagnostic) : (ofDiagnostic kind c.pos d).Throughout (P c) :=
  throughout_iff.2 ⟨hP.leaf c kind d, fun _ he => (List.not_mem_nil he).elim⟩

theorem Inherited.throughout_element (hP : Inherited P) (index : Nat)
    (hf : f.Throughout (P c)) : (f.ofElement index).Throughout (P c) :=
  throughout_iff.2 ⟨hP.element index (hf f (.self f)), List.forall_mem_singleton.2 hf⟩

theorem Throughout.of_ofElement {Q : Failure → Prop} {index : Nat}
    (hf : (f.ofElement index).Throughout Q) : f.Throughout Q :=
  (throughout_iff.1 hf).2 f List.mem_cons_self

theorem Inherited.throughout_insufficient (hP : Inherited P) (parser : String)
    (hf : f.Throughout (P c)) : (f.insufficient parser c).Throughout (P c) :=
  throughout_iff.2 ⟨hP.insufficient parser (hf f (.self f)), List.forall_mem_singleton.2 hf⟩

theorem Throughout.spliced {Q : Failure → Prop} (hf : f.Throughout Q) :
    ∀ e ∈ f.spliced, e.Throughout Q := by
  unfold Failure.spliced
  split
  · exact (throughout_iff.1 hf).2
  · exact List.forall_mem_singleton.2 hf

theorem furthest_mem (best : Failure) (fs : List Failure) : furthest best fs ∈ best :: fs := by
  induction fs generalizing best with
  | nil => exact List.mem_cons_self
  | cons f fs ih =>
    unfold furthest
    split
    · exact List.mem_cons_of_mem best (ih f)
    · have hmem := ih best
      rcases List.mem_cons.1 hmem with heq | hmem
      · rw [heq]
        exact List.mem_cons_self
      · exact List.mem_cons_of_mem best (List.mem_cons_of_mem f hmem)

/-- What a failed choice is made of. -/
theorem eq_of_alternatives {bs : List Failure} (hh : alternatives? bs = some h) :
    h.causes = bs.flatMap Failure.spliced ∧
      (∃ e ∈ h.causes, e.position = h.position ∧ e.message = h.message) ∧
      h.expected = expectedAt h.position h.causes := by
  unfold alternatives? at hh
  split at hh
  · cases hh
  · rename_i f fs hfs
    cases hh
    exact ⟨hfs.symm, ⟨_, furthest_mem f fs, rfl, rfl⟩, rfl⟩

theorem Throughout.alternatives {Q : Failure → Prop} {bs : List Failure}
    (hbs : ∀ b ∈ bs, b.Throughout Q) (hh : alternatives? bs = some h)
    (hQ : (∀ g ∈ h.causes, Q g) → Q h) : h.Throughout Q := by
  have hall : ∀ e ∈ h.causes, e.Throughout Q := by
    intro e he
    rw [(eq_of_alternatives hh).1] at he
    obtain ⟨b, hb, he⟩ := List.mem_flatMap.1 he
    exact (hbs b hb).spliced e he
  exact throughout_iff.2 ⟨hQ fun g hg => hall g hg g (.self g), hall⟩

theorem Inherited.throughout_alternatives (hP : Inherited P) {bs : List Failure}
    (hbs : ∀ b ∈ bs, b.Throughout (P c)) (hh : alternatives? bs = some h) :
    h.Throughout (P c) := .alternatives hbs hh (hP.alternatives hh)

end Inherited

end Failure

/-! ## Answers -/

/-- If the answer is a failure, its whole tree has the property. -/
def Outcome.Fails (P : Failure → Prop) : Outcome → Prop
  | .success _ _ => True
  | .failure f => f.Throughout P

/-- A run answers with a failure of its own only where input is left over. -/
theorem Outcome.Fails.whole_of_rest {P : Failure → Prop} {o : Outcome} (h : o.Fails P)
    (htrailing : ∀ v c found, o = .success v c → c.head? = some found →
      (Parser.trailing c found).Fails P)
    (options : RunOptions) : (o.whole options).Fails P := by
  cases o with
  | failure f => exact h
  | success v c =>
    unfold Outcome.whole
    dsimp only
    split
    next found _ hfound => exact htrailing v c found rfl hfound
    next => trivial

theorem Outcome.Fails.whole {P : Failure → Prop} {o : Outcome} (h : o.Fails P)
    (htrailing : ∀ v c found, o = .success v c → (Parser.trailing c found).Fails P)
    (options : RunOptions) : (o.whole options).Fails P :=
  h.whole_of_rest (fun v c found ho _ => htrailing v c found ho) options

/-- What failures inherit from their causes holds of all failures that a grammar yields. -/
theorem Yields.inherits {P : Cursor → Failure → Prop} (hP : Failure.Inherited P) {rules : Rules}
    {x : Piece} {c : Cursor} {o : Outcome} (h : Yields rules x c o) : o.Fails (P c) := by
  induction h with
  | char | literal | satisfy | eof | spaces => trivial
  | char_end | char_other | literal_end | literal_other | satisfy_end | satisfy_other =>
    exact hP.throughout_leaf _ _ _
  | eof_rest | absent_found => exact hP.throughout_leaf _ _ _
  | either_first | either_second | choice_last | absent => trivial
  | either_none _ _ hh hf hg =>
    refine hP.throughout_alternatives ?_ hh
    exact List.forall_mem_cons.2 ⟨hf, List.forall_mem_singleton.2 hg⟩
  | choice_none _ hh hf => exact hP.throughout_alternatives (List.forall_mem_singleton.2 hf) hh
  | choice_next _ ih | both_first _ ih | both _ _ _ ih => exact ih
  | seq_first _ ih => exact hP.throughout_element 0 ih
  | seq_last | seq_next | between | token => trivial
  | seq_later hp _ _ ih =>
    exact hP.throughout_element _ (hP.throughout_back hp.onward ih.of_ofElement)
  | between_opening _ ih | token_first _ ih | sepBy1_none _ ih => exact ih
  | between_content ho _ _ ih => exact hP.throughout_back ho.onward ih
  | between_closing ho hp _ _ _ ih => exact hP.throughout_back (ho.onward.trans hp.onward) ih
  | many_end | many_still | many_more | many1_still | many1_more => trivial
  | many1_none _ ih => exact hP.throughout_insufficient _ ih
  | optional | optional_none | rounds_end | rounds_back | rounds_still | rounds_more => trivial
  | sepBy_none | sepBy | sepBy1 | map | mapRun => trivial
  | map_none _ ih | mapRun_none _ ih | named _ ih | mark _ ih | ref _ _ ih => exact ih

/-- So it does of all failures that a run answers with. -/
theorem Yields.inherits_whole {P : Cursor → Failure → Prop} (hP : Failure.Inherited P)
    {rules : Rules} {x : Piece} {c : Cursor} {o : Outcome} (h : Yields rules x c o)
    (options : RunOptions) : (o.whole options).Fails (P c) := by
  refine (h.inherits hP).whole ?_ options
  rintro v n found rfl
  exact hP.throughout_back h.onward (hP.throughout_leaf n _ _)

/-- A failure lies ahead of the cursor if its causes do. -/
theorem Failure.spans_inherited : Failure.Inherited fun c f => c.Spans f.position where
  back := fun hn hf => hn.spans hf
  leaf := fun c _ _ => c.spans_self
  element := fun _ hf => hf
  insufficient := fun _ _ => Cursor.spans_self _
  alternatives := by
    intro c bs h hh hall
    obtain ⟨-, ⟨e, he, hposition, -⟩, -⟩ := eq_of_alternatives hh
    rw [← hposition]
    exact hall e he

/-! ## Calls -/

/-- The place at which a limit stopped an evaluation. -/
def Fault.abortPosition? : Fault → Option Int
  | .cancelled position => some position
  | .deadline _ position => some position
  | .depth _ _ position => some position
  | _ => none

/-- A limit stops an evaluation ahead of the cursor where it began, unless a function of
    the author raised the fault. -/
theorem Fault.Arises.spans {t : Setting} {c : Cursor} {f : Fault} (h : f.Arises t c)
    (hraises : ¬ t.parts.Raises f) (hinner : ¬ t.rules.RunsTo t.runs (.error f)) {p : Int}
    (hp : f.abortPosition? = some p) : c.Spans p := by
  cases h with
  | cancelled _ _ hspans | deadline _ _ hspans | depth _ hspans =>
    cases hp
    exact hspans
  | stack | grammar | innerFailed => cases hp
  | raised h => exact absurd h hraises
  | @mapped fn v name f hfn hreply =>
    cases hv : fn v with
    | value w =>
      rw [hv] at hreply
      cases hreply
    | fault e =>
      rw [hv] at hreply
      cases hreply
      exact absurd (.inr ⟨fn, v, hfn, hv⟩) hraises
    | plain q =>
      rw [hv, Reply.toValue] at hreply
      split at hreply <;> cases hreply
      cases hp
  | inner h => exact absurd h hinner

theorem Grammar.call_confined {t : Setting} (ht : t.Lawful) {g : Grammar} (hg : g.Uses t.parts)
    (hstarts : g.Starts t.runs) {env : Env} {s s' : State} (hs : t.Holds env s) {c : Cursor}
    {f : Fault} (h : (g.call c).run env s = (.error f, s')) : f.Arises t c := by
  have hconfined := Setting.parser_confined ht hg hstarts hs.rules env.allowance c env s hs
  rw [Grammar.run_call] at h
  rw [h] at hconfined
  exact hconfined

/-- A match ends ahead of the cursor in the same source, all failures in the tree of a
    failure lie ahead of it, and so does the place at which a limit stops the evaluation. -/
theorem Grammar.call_bounds {parts : Parts} (hauthor : ∀ fn, ¬ parts.author fn)
    {runs : RunOptions → Grammar → Prop} {env : Env} (hrules : env.rules.Use parts)
    (hstart : env.rules.Start parts runs) {g : Grammar} (hg : g.Uses parts)
    (hstarts : g.Starts runs) {s : State} (hs : s.Faithful env.rules) (c : Cursor) :
    (∀ v n s', (g.call c).run env s = (.ok (.success v n), s') →
      n.source = c.source ∧ c.pos ≤ n.pos ∧ n.pos ≤ c.source.size) ∧
    (∀ f s', (g.call c).run env s = (.ok (.failure f), s') →
      ∀ e, f.Contains e → c.pos ≤ e.position ∧ e.position ≤ c.source.size) ∧
    ∀ f s' p, (g.call c).run env s = (.error f, s') → f.abortPosition? = some p →
      ¬ parts.Raises f → ¬ env.rules.RunsTo runs (.error f) →
      c.pos ≤ p ∧ p ≤ c.source.size := by
  refine ⟨fun v n s' h => ?_, fun f s' h => ?_, fun f s' p h hp hraises hinner => ?_⟩
  · have honward := (yields_of_call hauthor hrules hg hs h).1.onward
    have hle := n.pos_le
    rw [honward.source] at hle
    exact ⟨honward.source, honward.pos, hle⟩
  · exact (yields_of_call hauthor hrules hg hs h).1.inherits Failure.spans_inherited
  · let t : Setting := ⟨env.rules, parts, runs, env.scope.map Scope.outset, False⟩
    have ht : t.Lawful := ⟨hauthor, hrules, hstart, False.elim⟩
    have hholds : t.Holds env s := ⟨rfl, rfl, hs, False.elim⟩
    exact (call_confined ht hg hstarts hholds h).spans hraises hinner hp

/-- Two parentheses are open where the letter is missing. With room for one delegation
    only, the second parenthesis is too deep. -/
theorem Grammar.call_bounds_nested :
    let env (limit : Int) : Env := { rules := .nested, scope := some { guard := ⟨limit, 1⟩ } }
    let c : Cursor := { source := #['(', '(', '(', 'y'], pos := 1, pos_le := by decide }
    (∃ f s', ((Grammar.ref "nested").call c).run (env 9) {} = (.ok (.failure f), s') ∧
      ∀ e, f.Contains e → 1 ≤ e.position ∧ e.position ≤ 4) ∧
    ∃ p s', ((Grammar.ref "nested").call c).run (env 2) {} = (.error (.depth 2 "nested" p), s') ∧
      1 ≤ p ∧ p ≤ 4 := by
  intro env c
  have hrules (limit : Int) : (env limit).rules.Use .bare := Rules.nested_use _ fun _ => trivial
  have hstart (limit : Int) : (env limit).rules.Start .bare fun _ _ => False :=
    Rules.nested_start _ _
  have hg : Grammar.Uses .bare (.ref "nested") := trivial
  have hbounds (limit : Int) := Grammar.call_bounds (fun _ => id) (hrules limit) (hstart limit)
    hg trivial (State.faithful_init _) c
  constructor
  · exact ⟨_, _, rfl, (hbounds 9).2.1 _ _ rfl⟩
  · refine ⟨_, _, rfl, (hbounds 2).2.2 _ _ _ rfl rfl ?_ (Rules.not_runsTo _ _)⟩
    intro h
    rcases h with ⟨_, _, hp, _⟩ | ⟨_, _, hp, _⟩ <;> exact hp

end Descent
