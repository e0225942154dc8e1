-- SUMMARY: What is kept by all computations of an evaluation, and what holds when a fault stops one.
import Descent.Proofs.BigStep

/-! # Invariants of evaluation

An evaluation adds to the journal and builds rules. Every delegation that it
opens it closes again, also when a fault stops it, and a rule that it builds is
what the builder hands back: `State.Grown`.

`Eval.Ensures` says of a computation that it keeps an invariant and that its
answer is as described. What can be asked of an invariant in general is
`Invariant.Lawful`; every computation that only adds to the state keeps it. -/

namespace Descent

/-! ## Open delegations -/

/-- By how much an event changes the number of open delegations. -/
def Event.opens : Event → Int
  | .opened _ _ _ => 1
  | .closed _ => -1
  | _ => 0

/-- The delegations that a stretch of the journal opens and does not close. -/
def Journal.unclosed : Journal → Int
  | [] => 0
  | e :: j => e.opens + unclosed j

@[simp] theorem Journal.unclosed_nil : unclosed [] = 0 := rfl

@[simp] theorem Journal.unclosed_cons (e : Event) (j : Journal) :
    unclosed (e :: j) = e.opens + unclosed j := rfl

@[simp] theorem Journal.unclosed_append (j k : Journal) :
    unclosed (j ++ k) = unclosed j + unclosed k := by
  induction j with
  | nil => simp
  | cons e j ih => rw [List.cons_append, unclosed_cons, unclosed_cons, ih, Int.add_assoc]

/-! ## Growing states -/

/-- The state `t` can follow on `s`: what was built is what the builders hand
    back, and as many delegations were closed as were opened. -/
structure State.Grown (rules : Rules) (s t : State) : Prop where
  faithful : t.Faithful rules
  journal : ∃ j : Journal, t.journal = j ++ s.journal ∧ j.unclosed = 0

namespace State

variable {rules : Rules} {s t u : State}

theorem Grown.refl (h : s.Faithful rules) : s.Grown rules s := ⟨h, [], rfl, rfl⟩

theorem Grown.trans (hst : s.Grown rules t) (htu : t.Grown rules u) : s.Grown rules u := by
  obtain ⟨j, hj, hj₀⟩ := hst.journal
  obtain ⟨k, hk, hk₀⟩ := htu.journal
  refine ⟨htu.faithful, k ++ j, ?_, ?_⟩
  · simp [hk, hj]
  · simp [hk₀, hj₀]

theorem grown_emit (h : s.Faithful rules) {e : Event} (he : e.opens = 0) :
    s.Grown rules (s.emit e) := by
  refine ⟨h, [e], rfl, ?_⟩
  simp [he]

theorem grown_setCell (h : s.Faithful rules) {r : Rule} {cell : Cell}
    (hcell : ∀ g, cell = .built g → (rules r).body.parser? = some g) :
    s.Grown rules (s.setCell r cell) := by
  refine ⟨?_, [], rfl, rfl⟩
  intro r' g hg
  simp only [setCell] at hg
  split at hg
  · rename_i hr
    rw [hr]
    exact hcell g hg
  · exact h r' g hg

/-- A delegation that is opened, and closed again after the state has grown. -/
theorem grown_delegation {r : Rule} {position depth : Nat}
    (h : (s.emit (.opened r position depth)).Grown rules t) :
    s.Grown rules (t.emit (.closed r)) := by
  obtain ⟨j, hj, hj₀⟩ := h.journal
  refine ⟨h.faithful, .closed r :: j ++ [.opened r position depth], ?_, ?_⟩
  · change Event.closed r :: t.journal = _
    rw [hj]
    simp [State.emit]
  · simp [hj₀, Event.opens]

end State

/-! ## Invariants -/

/-- The faults of the depth guard. -/
def Fault.IsDepth (f : Fault) : Prop := ∃ limit rule position, f = .depth limit rule position

/-- What holds during an evaluation. -/
structure Invariant where
  rules : Rules
  parts : Parts
  holds : Env → State → Prop
  /-- What holds when a fault has stopped a computation. -/
  stops : Env → Fault → State → Prop

namespace Invariant

/-- The state has grown from a given one. -/
def grown (rules : Rules) (parts : Parts) (s₀ : State) : Invariant where
  rules := rules
  parts := parts
  holds := fun env s => env.rules = rules ∧ s₀.Grown rules s
  stops := fun _ _ s => s₀.Grown rules s

/-- The invariant is about the given rules and withstands growth, and faults that
    are not refusals of the guard can be raised. -/
structure Lawful (I : Invariant) : Prop where
  rules : ∀ {env s}, I.holds env s → env.rules = I.rules
  faithful : ∀ {env s}, I.holds env s → s.Faithful I.rules
  grown : ∀ {env s t}, I.holds env s → s.Grown I.rules t → I.holds env t
  stops : ∀ {env s f}, I.holds env s → I.parts.Raises f ∨ ¬ f.IsDepth → I.stops env f s

theorem grown_lawful (rules : Rules) (parts : Parts) (s₀ : State) :
    (grown rules parts s₀).Lawful where
  rules := fun h => h.1
  faithful := fun h => h.2.faithful
  grown := fun h hst => ⟨h.1, h.2.trans hst⟩
  stops := fun h _ => h.2

theorem grown_holds {env : Env} {s : State} (hs : s.Faithful env.rules) (parts : Parts) :
    (grown env.rules parts s).holds env s := ⟨rfl, .refl hs⟩

end Invariant

/-! ## Computations -/

namespace Eval

variable {α β : Type} {I : Invariant} {Q : α → Prop} {R : β → Prop} {x : Eval α}

/-- The computation keeps the invariant, and its answer, if it gives one, is as
    described. -/
def Ensures (I : Invariant) (Q : α → Prop) (x : Eval α) : Prop :=
  ∀ env s, I.holds env s → match x.run env s with
    | (.ok a, s') => Q a ∧ I.holds env s'
    | (.error f, s') => I.stops env f s'

theorem Ensures.pure {a : α} (h : Q a) : Ensures I Q (pure a) := fun _ _ hs => ⟨h, hs⟩

theorem Ensures.bind {f : α → Eval β} (hx : Ensures I Q x)
    (hf : ∀ a, Q a → Ensures I R (f a)) : Ensures I R (x >>= f) := by
  intro env s hs
  have h := hx env s hs
  rw [run_bind]
  cases hrun : x.run env s with
  | mk r s' =>
    rw [hrun] at h
    cases r with
    | error e => exact h
    | ok a => exact hf a h.1 env s' h.2

theorem Ensures.mono {Q' : α → Prop} (hx : Ensures I Q x) (hq : ∀ a, Q a → Q' a) :
    Ensures I Q' x := by
  intro env s hs
  have h := hx env s hs
  cases hrun : x.run env s with
  | mk r s' =>
    rw [hrun] at h
    cases r with
    | error e => exact h
    | ok a => exact ⟨hq a h.1, h.2⟩

theorem Ensures.raise (hI : I.Lawful) {f : Fault} (hf : I.parts.Raises f ∨ ¬ f.IsDepth) :
    Ensures I Q (raise f) := fun _ _ hs => hI.stops hs hf

theorem Ensures.ofExcept (hI : I.Lawful) {r : Except Fault α}
    (hr : ∀ f, r = .error f → I.parts.Raises f ∨ ¬ f.IsDepth) :
    Ensures I (r = .ok ·) (ofExcept r) := by
  cases r with
  | ok a => exact .pure rfl
  | error f => exact .raise hI (hr f rfl)

theorem Ensures.ask (hI : I.Lawful) : Ensures I (fun env => env.rules = I.rules) ask :=
  fun _ _ hs => ⟨hI.rules hs, hs⟩

theorem Ensures.get (hI : I.Lawful) : Ensures I (fun s => s.Faithful I.rules) get :=
  fun _ _ hs => ⟨hI.faithful hs, hs⟩

theorem Ensures.modify (hI : I.Lawful) {f : State → State}
    (h : ∀ s : State, s.Faithful I.rules → s.Grown I.rules (f s)) :
    Ensures I (fun _ => True) (modify f) :=
  fun _ s hs => ⟨trivial, hI.grown hs (h s (hI.faithful hs))⟩

theorem Ensures.emit (hI : I.Lawful) {e : Event} (he : e.opens = 0) :
    Ensures I (fun _ => True) (emit e) := .modify hI fun _ hs => State.grown_emit hs he

theorem Ensures.readClock (hI : I.Lawful) : Ensures I (fun _ => True) readClock := by
  intro env s hs
  have hfaithful : s.Faithful I.rules := hI.faithful hs
  exact ⟨trivial, hI.grown hs ⟨hfaithful, [], rfl, rfl⟩⟩

/-- What lets the state grow can be attempted under any invariant. -/
theorem Ensures.attempt (hI : I.Lawful)
    (hx : ∀ s₀, Ensures (.grown I.rules I.parts s₀) Q x) :
    Ensures I (fun r => ∀ a, r = .ok a → Q a) (attempt x) := by
  intro env s hs
  have h := hx s env s ⟨hI.rules hs, .refl (hI.faithful hs)⟩
  rw [run_attempt]
  cases hrun : x.run env s with
  | mk r s' =>
    rw [hrun] at h
    cases r with
    | error e => exact ⟨nofun, hI.grown hs h⟩
    | ok a =>
      refine ⟨?_, hI.grown hs h.2.2⟩
      rintro _ ⟨⟩
      exact h.1

theorem Ensures.closing {rules : Rules} {parts : Parts} {s₀ : State} {e : Event}
    (he : e.opens = 0) (hx : Ensures (.grown rules parts s₀) Q x) :
    Ensures (.grown rules parts s₀) Q (closing e x) := by
  intro env s hs
  have h := hx env s hs
  rw [run_closing]
  cases hrun : x.run env s with
  | mk r s' =>
    rw [hrun] at h
    cases r with
    | error f => exact h.trans (State.grown_emit h.faithful he)
    | ok a => exact ⟨h.1, h.2.1, h.2.2.trans (State.grown_emit h.2.2.faithful he)⟩

theorem Ensures.within {rules : Rules} {parts : Parts} {s₀ : State} (scope : Option Scope)
    (hx : Ensures (.grown rules parts s₀) Q x) :
    Ensures (.grown rules parts s₀) Q (within scope x) :=
  fun env s hs => hx { env with scope := scope } s hs

theorem Ensures.checkpoint (hI : I.Lawful) (position : Int) :
    Ensures I (fun _ => True) (checkpoint position) := by
  refine .bind (.ask hI) fun env _ => ?_
  cases env.scope with
  | none => exact .pure trivial
  | some scope =>
    refine .bind (.emit hI rfl) fun _ _ => .bind (.get hI) fun s _ => ?_
    split
    · refine .raise hI (.inr ?_)
      rintro ⟨_, _, _, ⟨⟩⟩
    · cases scope.deadline with
      | none => exact .pure trivial
      | some deadline =>
        refine .bind (.readClock hI) fun now _ => ?_
        unfold Deadline.permit
        split
        · refine .raise hI (.inr ?_)
          rintro ⟨_, _, _, ⟨⟩⟩
        · exact .pure trivial

end Eval

theorem Predicate.apply_ensures {I : Invariant} (hI : I.Lawful) {p : Predicate}
    (hp : I.parts.predicate p) (ch : Char) :
    Eval.Ensures I (fun b => p.test ch = .ok b) (p.apply ch) := by
  have hpull : ∀ t, Eval.Ensures I (fun _ => True) (pull t) := by
    intro t
    refine .bind (.get hI) fun s _ => ?_
    refine .bind (.modify hI fun _ hs => ⟨hs, [], rfl, rfl⟩) fun _ _ => ?_
    split
    · exact .bind (.emit hI rfl) fun _ _ => .modify hI fun _ hs => ⟨hs, [], rfl, rfl⟩
    · exact .pure trivial
  have htest : Eval.Ensures I (fun b => p.test ch = .ok b) (Eval.ofExcept (p.test ch)) :=
    .ofExcept hI fun f hf => .inl (.inl ⟨p, ch, hp, hf⟩)
  unfold apply
  cases p.trigger with
  | none => exact htest
  | some t => exact .bind (hpull t) fun _ _ => htest

end Descent
