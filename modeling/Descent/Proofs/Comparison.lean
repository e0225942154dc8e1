-- SUMMARY: Two evaluations of one grammar side by side, the second in a source with a text in front.
import Descent.Proofs.Shift

/-! # Comparing two evaluations

A comparison says in what two evaluations may differ. Two computations are
alike, `Comparison.Sim`, when from related environments and states they end in
related ways: with related answers, or with related faults. The second
evaluation may read a source with a text in front of the first one's, so
positions are moved on by the length of that text.

Some faults of the first evaluation can be excused: nothing is then asked of the
second. No combinator turns a fault into an answer, so what is excused is
excused for the whole evaluation.

`Comparison.denote_sim` lifts a comparison of delegations and of inner runs to
whole grammars. -/

namespace Descent

/-- Two states that differ in their journals at most. All parts of what was
    built are allowed. -/
structure State.Alike (parts : Parts) (s t : State) : Prop where
  cells : t.cells = s.cells
  cancelled : t.cancelled = s.cancelled
  calls : t.calls = s.calls
  readings : t.readings = s.readings
  built : s.Use parts

namespace State.Alike

variable {parts : Parts} {s t : State}

theorem refl (h : s.Use parts) : s.Alike parts s := ⟨rfl, rfl, rfl, rfl, h⟩

theorem emit (h : s.Alike parts t) (e e' : Event) : (s.emit e).Alike parts (t.emit e') :=
  ⟨h.cells, h.cancelled, h.calls, h.readings, h.built⟩

theorem setCell (h : s.Alike parts t) (rule : Rule) {cell : Cell}
    (hcell : ∀ g, cell = .built g → g.Uses parts) :
    (s.setCell rule cell).Alike parts (t.setCell rule cell) := by
  refine ⟨?_, h.cancelled, h.calls, h.readings, ?_⟩
  · simp only [State.setCell, h.cells]
  · intro r g hr hg
    simp only [State.setCell] at hg
    split at hg
    · exact hcell g hg
    · exact h.built r g hr hg

end State.Alike

/-- How two evaluations are compared. -/
structure Comparison where
  /-- What occurs in the grammars and in the builders. -/
  parts : Parts := {}
  /-- The text in front of the second source. -/
  lead : Source := #[]
  /-- The scopes that may be active. -/
  scopes : Option Scope → Option Scope → Prop
  /-- The faults that correspond to one another. -/
  faults : Fault → Fault → Prop := Eq
  /-- The faults of the first evaluation after which the second may do anything. -/
  excused : Fault → Prop := fun _ => False

namespace Comparison

variable {α β γ δ : Type} {k : Comparison} {R : α → β → Prop} {S : γ → δ → Prop}

/-- Two environments that differ in their scopes at most. -/
structure Envs (k : Comparison) (env env' : Env) : Prop where
  rules : env'.rules = env.rules
  clock : env'.clock = env.clock
  scope : k.scopes env.scope env'.scope
  use : env.rules.Use k.parts

/-! ## Computations -/

/-- Two computations end in the same way. -/
def Ends (k : Comparison) (R : α → β → Prop) :
    Except Fault α × State → Except Fault β × State → Prop
  | (.ok a, s), y => ∃ b t, y = (.ok b, t) ∧ R a b ∧ s.Alike k.parts t
  | (.error f, s), y =>
    k.excused f ∨ ∃ f' t, y = (.error f', t) ∧ k.faults f f' ∧ s.Alike k.parts t

/-- Two computations end in the same way whenever they begin in the same way. -/
def Sim (k : Comparison) (R : α → β → Prop) (x : Eval α) (y : Eval β) : Prop :=
  ∀ env env' s t, k.Envs env env' → s.Alike k.parts t →
    k.Ends R (x.run env s) (y.run env' t)

theorem Sim.pure {a : α} {b : β} (h : R a b) : k.Sim R (pure a) (pure b) :=
  fun _ _ _ t _ hst => ⟨b, t, rfl, h, hst⟩

theorem Sim.bind {x : Eval α} {y : Eval β} {f : α → Eval γ} {g : β → Eval δ} (hx : k.Sim R x y)
    (hf : ∀ a b, R a b → k.Sim S (f a) (g b)) : k.Sim S (x >>= f) (y >>= g) := by
  intro env env' s t henv hst
  have h := hx env env' s t henv hst
  rw [Eval.run_bind, Eval.run_bind]
  cases hrun : x.run env s with
  | mk r s₁ =>
    rw [hrun] at h
    cases r with
    | ok a =>
      obtain ⟨b, t₁, hy, hab, hst₁⟩ := h
      rw [hy]
      exact hf a b hab env env' s₁ t₁ henv hst₁
    | error e =>
      rcases h with hex | ⟨e', t₁, hy, he, hst₁⟩
      · exact .inl hex
      · rw [hy]
        exact .inr ⟨e', t₁, rfl, he, hst₁⟩

theorem Sim.fault {f f' : Fault} (h : k.faults f f') :
    k.Sim R (Eval.raise f) (Eval.raise f') :=
  fun _ _ _ t _ hst => .inr ⟨f', t, rfl, h, hst⟩

theorem Sim.ofExcept {r : Except Fault α} (h : ∀ f, r = .error f → k.faults f f) :
    k.Sim (fun a b => b = a) (Eval.ofExcept r) (Eval.ofExcept r) := by
  intro env env' s t _ hst
  cases r with
  | ok a => exact ⟨a, t, rfl, rfl, hst⟩
  | error f => exact .inr ⟨f, t, rfl, h f rfl, hst⟩

theorem Sim.ask : k.Sim k.Envs Eval.ask Eval.ask :=
  fun _ env' _ t henv hst => ⟨env', t, rfl, henv, hst⟩

theorem Sim.get : k.Sim (State.Alike k.parts) Eval.get Eval.get :=
  fun _ _ _ t _ hst => ⟨t, t, rfl, hst, hst⟩

theorem Sim.modify {f g : State → State}
    (h : ∀ s t, s.Alike k.parts t → (f s).Alike k.parts (g t)) :
    k.Sim (fun _ _ => True) (Eval.modify f) (Eval.modify g) :=
  fun _ _ s t _ hst => ⟨(), g t, rfl, trivial, h s t hst⟩

theorem Sim.emit (e e' : Event) : k.Sim (fun _ _ => True) (Eval.emit e) (Eval.emit e') :=
  .modify fun _ _ hst => hst.emit e e'

theorem Sim.closing {x : Eval α} {y : Eval β} (hx : k.Sim R x y) (e e' : Event) :
    k.Sim R (Eval.closing e x) (Eval.closing e' y) := by
  intro env env' s t henv hst
  have h := hx env env' s t henv hst
  rw [Eval.run_closing, Eval.run_closing]
  cases hrun : x.run env s with
  | mk r s₁ =>
    rw [hrun] at h
    cases r with
    | ok a =>
      obtain ⟨b, t₁, hy, hab, hst₁⟩ := h
      rw [hy]
      exact ⟨b, _, rfl, hab, hst₁.emit e e'⟩
    | error f =>
      rcases h with hex | ⟨f', t₁, hy, hf, hst₁⟩
      · exact .inl hex
      · rw [hy]
        exact .inr ⟨f', _, rfl, hf, hst₁.emit e e'⟩

theorem Sim.readClock : k.Sim (fun a b => b = a) Eval.readClock Eval.readClock := by
  intro env env' s t henv hst
  refine ⟨_, _, rfl, ?_, hst.cells, hst.cancelled, hst.calls, ?_, hst.built⟩
  · simp [henv.clock, hst.readings]
  · exact congrArg (· + 1) hst.readings

/-! ## Laws -/

/-- The limits that checkpoints look at are the same in related scopes, which
    stay related one level deeper. -/
structure Lawful (k : Comparison) : Prop where
  located : ∀ f : Fault, k.faults f (f.shift k.lead.size)
  scopes : ∀ a b, k.scopes a b → a = none ∧ b = none ∨
    ∃ x y : Scope, a = some x ∧ b = some y ∧ y.deadline = x.deadline ∧ y.watched = x.watched ∧
      k.scopes (some { x with guard := x.guard.enter }) (some { y with guard := y.guard.enter })

/-- In the same scopes the limits are the same. -/
theorem Lawful.of_same (hlocated : ∀ f : Fault, k.faults f (f.shift k.lead.size))
    (hscopes : k.scopes = Eq) : k.Lawful := by
  refine ⟨hlocated, ?_⟩
  rw [hscopes]
  rintro (_ | x) _ rfl
  · exact .inl ⟨rfl, rfl⟩
  · exact .inr ⟨x, x, rfl, rfl, rfl, rfl, rfl⟩

theorem Sim.raise (hk : k.Lawful) {f f' : Fault} (h : f' = f.shift k.lead.size) :
    k.Sim R (Eval.raise f) (Eval.raise f') := by
  subst h
  exact .fault (hk.located f)

theorem Lawful.placeless (hk : k.Lawful) {f : Fault} (h : f.shift k.lead.size = f) :
    k.faults f f := by
  have hf := hk.located f
  rwa [h] at hf

theorem Sim.checkpoint (hk : k.Lawful) (c : Cursor) :
    k.Sim (fun _ _ => True) (checkpoint c.pos) (checkpoint (c.shift k.lead).pos) := by
  have hpos : ((c.shift k.lead).pos : Int) = c.pos + k.lead.size := by
    rw [Cursor.shift_pos]
    omega
  refine .bind .ask fun env env' henv => ?_
  obtain ⟨ha, hb⟩ | ⟨x, y, ha, hb, hdeadline, hwatched, -⟩ := hk.scopes _ _ henv.scope
  · rw [ha, hb]
    exact .pure trivial
  · simp only [ha, hb, hdeadline, hwatched]
    refine .bind (.emit _ _) fun _ _ _ => .bind .get fun s t hst => ?_
    rw [hst.cancelled]
    split
    · exact .raise hk (congrArg Fault.cancelled hpos)
    · cases x.deadline with
      | none => exact .pure trivial
      | some deadline =>
        refine .bind .readClock fun now now' hnow => ?_
        subst hnow
        rw [hpos]
        unfold Deadline.permit
        split
        · exact .raise hk rfl
        · exact .pure trivial

/-! ## Parsers -/

/-- The second outcome is the first one, moved on. -/
def Same (k : Comparison) (o o' : Outcome) : Prop := o' = o.shift k.lead

/-- Two parsers answer alike at every place of the first source. -/
structure Parsers (k : Comparison) (p q : Parser) : Prop where
  name : p.name = q.name
  fn : ∀ c, k.Sim k.Same (p.fn c) (q.fn (c.shift k.lead))

theorem Parsers.here {p q : Parser} (h : k.Parsers p q) (hlead : k.lead = #[]) (c : Cursor) :
    k.Sim (fun a b => b = a) (p.fn c) (q.fn c) := by
  have hsame : k.Same = fun a b => b = a := by
    funext o o'
    simp [Same, hlead]
  have hfn := h.fn c
  rw [hlead, Cursor.shift_empty, hsame] at hfn
  exact hfn

theorem noneMatched_sim (hk : k.Lawful) (failed : List Failure) :
    k.Sim k.Same (Parser.noneMatched failed)
      (Parser.noneMatched (failed.map (·.shift k.lead.size))) := by
  unfold Parser.noneMatched
  rw [Failure.alternatives?_shift]
  cases Failure.alternatives? failed with
  | some f => exact .pure rfl
  | none => exact .raise hk rfl

section Combinators

variable {links links' : Links}

theorem tryEach_sim (hk : k.Lawful) {gs : List Grammar}
    (hgs : ∀ g ∈ gs, k.Parsers (g.denote links) (g.denote links')) (failed : List Failure)
    (c : Cursor) :
    k.Sim k.Same (Parser.tryEach failed (gs.map (·.denote links)) c)
      (Parser.tryEach (failed.map (·.shift k.lead.size)) (gs.map (·.denote links'))
        (c.shift k.lead)) := by
  induction gs generalizing failed with
  | nil =>
    simp only [List.map_nil, Parser.tryEach, ← List.map_reverse]
    exact noneMatched_sim hk _
  | cons g gs ih =>
    refine .bind ((hgs g List.mem_cons_self).fn c) fun o o' ho => ?_
    cases ho
    cases o with
    | success v n => exact .pure rfl
    | failure f => exact ih (fun g' hg' => hgs g' (List.mem_cons_of_mem g hg')) (f :: failed)

theorem seqFrom_sim {gs : List Grammar}
    (hgs : ∀ g ∈ gs, k.Parsers (g.denote links) (g.denote links')) (index : Nat)
    (values : List Value) (c : Cursor) :
    k.Sim k.Same (Parser.seqFrom index values (gs.map (·.denote links)) c)
      (Parser.seqFrom index values (gs.map (·.denote links')) (c.shift k.lead)) := by
  induction gs generalizing index values c with
  | nil => exact .pure rfl
  | cons g gs ih =>
    refine .bind ((hgs g List.mem_cons_self).fn c) fun o o' ho => ?_
    cases ho
    cases o with
    | failure f => exact .pure (congrArg _ (Failure.ofElement_shift index f).symm)
    | success v n =>
      exact ih (fun g' hg' => hgs g' (List.mem_cons_of_mem g hg')) (index + 1) (v :: values) n

/-- How two repetitions end. -/
def SameRepetition (k : Comparison) (r r' : Repetition) : Prop :=
  r' = ⟨r.values, r.stop.shift k.lead, r.ended.map (·.shift k.lead.size)⟩

theorem repeatFrom_sim (hk : k.Lawful) {p q : Parser} (hp : k.Parsers p q) (c : Cursor)
    (values : List Value) :
    k.Sim k.SameRepetition (p.repeatFrom c values) (q.repeatFrom (c.shift k.lead) values) := by
  induction hr : c.remaining using Nat.strongRecOn generalizing c values with
  | ind r ih =>
    subst hr
    rw [Parser.repeatFrom_eq, Parser.repeatFrom_eq]
    refine .bind (.checkpoint hk c) fun _ _ _ => .bind (hp.fn c) fun o o' ho => ?_
    cases ho
    cases o with
    | failure f => exact .pure rfl
    | success v n =>
      simp only [Outcome.shift, Cursor.remaining_shift]
      split
      · exact ih n.remaining ‹_› n (v :: values) rfl
      · exact .bind (.emit _ _) fun _ _ _ => .pure rfl

theorem separatedFrom_sim (hk : k.Lawful) {p q sep sep' : Parser} (hp : k.Parsers p q)
    (hsep : k.Parsers sep sep') (c : Cursor) (values : List Value) :
    k.Sim k.Same (p.separatedFrom sep c values)
      (q.separatedFrom sep' (c.shift k.lead) values) := by
  induction hr : c.remaining using Nat.strongRecOn generalizing c values with
  | ind r ih =>
    subst hr
    rw [Parser.separatedFrom_eq, Parser.separatedFrom_eq]
    refine .bind (.checkpoint hk c) fun _ _ _ => .bind (hsep.fn c) fun o o' ho => ?_
    cases ho
    cases o with
    | failure f => exact .pure rfl
    | success w a =>
      refine .bind (hp.fn a) fun o o' ho => ?_
      cases ho
      cases o with
      | failure f => exact .pure rfl
      | success v n =>
        simp only [Outcome.shift, Cursor.remaining_shift]
        split
        · exact ih n.remaining ‹_› n (v :: values) rfl
        · exact .pure rfl

end Combinators

/-! ## Grammars -/

/-- The functions that authors wrote do the same in both evaluations. -/
structure Allows (k : Comparison) : Prop where
  predicate : ∀ p, k.parts.predicate p → ∀ ch e, p.test ch = .error e → k.faults e e
  mapping : ∀ f, k.parts.mapping f → ∀ v e, f v = .fault e → k.faults e e
  author : ∀ fn, k.parts.author fn → ∀ c, fn (c.shift k.lead) = (fn c).shift k.lead

/-- In one source every function does the same twice. -/
theorem Allows.of_here (hlead : k.lead = #[]) (hfaults : ∀ f, k.faults f f) : k.Allows where
  predicate := fun _ _ _ e _ => hfaults e
  mapping := fun _ _ _ e _ => hfaults e
  author := fun fn _ c => by rw [hlead, Cursor.shift_empty, Outcome.shift_empty]

/-- Delegations do the same in both evaluations, and so do inner runs. -/
structure Linked (k : Comparison) (links links' : Links) : Prop where
  ruleName : links.ruleName = links'.ruleName
  delegate : ∀ r, k.parts.rule r → ∀ c,
    k.Sim k.Same (links.delegate r c) (links'.delegate r (c.shift k.lead))
  runInner : k.parts.mappingRuns → ∀ o (g : Grammar) text, g.Uses k.parts →
    k.Sim (fun a b => b = a) (links.runInner o g text) (links'.runInner o g text)

theorem apply_sim {p : Predicate} {ch : Char} (hp : ∀ e, p.test ch = .error e → k.faults e e) :
    k.Sim (fun a b => b = a) (p.apply ch) (p.apply ch) := by
  have hpull : ∀ t, k.Sim (fun _ _ => True) (Predicate.pull t) (Predicate.pull t) := by
    intro t
    refine .bind .get fun s s' hs => ?_
    rw [hs.calls]
    refine .bind (.modify fun s t h => ?_) fun _ _ _ => ?_
    · exact ⟨h.cells, h.cancelled, rfl, h.readings, h.built⟩
    · split
      · refine .bind (.emit _ _) fun _ _ _ => .modify fun s t h => ?_
        exact ⟨h.cells, rfl, h.calls, h.readings, h.built⟩
      · exact .pure trivial
  unfold Predicate.apply
  cases p.trigger with
  | none => exact .ofExcept hp
  | some t => exact .bind (hpull t) fun _ _ _ => .ofExcept hp

/-- Two replies are the same, and a fault among them is the same in both
    evaluations. -/
def SameReply (k : Comparison) (reply reply' : Reply) : Prop :=
  reply' = reply ∧ ∀ e, reply = .fault e → k.faults e e

theorem toValue_sim (hk : k.Lawful) {reply : Reply} (h : ∀ e, reply = .fault e → k.faults e e)
    (name : String) :
    k.Sim (fun a b => b = a) (Eval.ofExcept (reply.toValue name))
      (Eval.ofExcept (reply.toValue name)) := by
  refine .ofExcept fun e he => ?_
  cases reply with
  | value v => cases he
  | fault f =>
    cases he
    exact h _ rfl
  | plain p =>
    rw [Reply.toValue] at he
    split at he <;> cases he
    exact hk.placeless rfl

theorem mapWith_sim (hk : k.Lawful) {p q : Parser} (hp : k.Parsers p q) {f g : Value → Eval Reply}
    (hf : ∀ v, k.Sim k.SameReply (f v) (g v)) (c : Cursor) :
    k.Sim k.Same ((p.mapWith f).fn c) ((q.mapWith g).fn (c.shift k.lead)) := by
  refine .bind (hp.fn c) fun o o' ho => ?_
  cases ho
  cases o with
  | failure e => exact .pure rfl
  | success v n =>
    refine .bind (hf v) fun reply reply' hreply => ?_
    obtain ⟨rfl, hfault⟩ := hreply
    simp only [← hp.name]
    refine .bind (toValue_sim hk hfault p.name) fun w w' hw => ?_
    subst hw
    exact .pure rfl

theorem denote_sim {links links' : Links} (hk : k.Lawful) (hparts : k.Allows)
    (hlinks : k.Linked links links') (g : Grammar) (hg : g.Uses k.parts) :
    k.Parsers (g.denote links) (g.denote links') := by
  have hname (p : Grammar) : (p.denote links).name = (p.denote links').name := by
    simp [Grammar.denote_name, hlinks.ruleName]
  refine ⟨hname g, ?_⟩
  induction g with
  | char ch =>
    intro c
    refine .pure ?_
    rw [Same]
    dsimp only
    rw [Cursor.head?_shift]
    split
    · exact (Outcome.failAt_shift ..).symm
    · split
      · rw [Cursor.advance_shift]
        rfl
      · exact (Outcome.failAt_shift ..).symm
  | literal s =>
    intro c
    refine .pure ?_
    rw [Same]
    dsimp only
    rw [Cursor.canRead_shift, Cursor.textAhead_shift]
    split
    · split
      · rw [Cursor.advance_shift]
        rfl
      · exact (Outcome.failAt_shift ..).symm
    · exact (Outcome.failAt_shift ..).symm
  | satisfy d p =>
    intro c
    simp only [Grammar.denote, Parser.satisfy, Cursor.head?_shift]
    cases c.head? with
    | none => exact .pure (Outcome.failAt_shift ..).symm
    | some found =>
      refine .bind (apply_sim (hparts.predicate p hg found)) fun b b' hb => ?_
      subst hb
      cases b' with
      | true =>
        rw [Cursor.advance_shift]
        exact .pure rfl
      | false => exact .pure (Outcome.failAt_shift ..).symm
  | eof =>
    intro c
    refine .pure ?_
    rw [Same]
    dsimp only
    rw [Cursor.head?_shift]
    split
    · exact (Outcome.failAt_shift ..).symm
    · rfl
  | spaces =>
    intro c
    refine .pure ?_
    rw [Same]
    dsimp only
    rw [Cursor.skipBlanks_shift, Cursor.textUpTo_shift (Cursor.onward_skipBlanks c)]
    rfl
  | either a b ha hb =>
    intro c
    refine .bind (ha hg.1 c) fun o o' ho => ?_
    cases ho
    cases o with
    | success v n => exact .pure rfl
    | failure f =>
      refine .bind (hb hg.2 c) fun o o' ho => ?_
      cases ho
      cases o with
      | success v n => exact .pure rfl
      | failure g => exact noneMatched_sim hk [f, g]
  | choice p ps hp hps =>
    intro c
    simp only [Grammar.denote, Grammar.denoteAll_eq_map]
    have hall : ∀ q ∈ p :: ps, k.Parsers (q.denote links) (q.denote links') :=
      fun q hq => ⟨hname q, (Grammar.forall_of_uses hg hp hps q hq).2⟩
    exact tryEach_sim hk hall [] c
  | both a b ha hb =>
    intro c
    refine .bind (ha hg.1 c) fun o o' ho => ?_
    cases ho
    cases o with
    | failure f => exact .pure rfl
    | success v n => exact hb hg.2 c
  | absent p hp =>
    intro c
    refine .bind (hp hg c) fun o o' ho => ?_
    cases ho
    cases o with
    | failure f => exact .pure rfl
    | success v n =>
      simp only [Outcome.shift, hname]
      exact .pure (Outcome.failAt_shift ..).symm
  | seq p ps hp hps =>
    intro c
    simp only [Grammar.denote, Grammar.denoteAll_eq_map]
    have hall : ∀ q ∈ p :: ps, k.Parsers (q.denote links) (q.denote links') :=
      fun q hq => ⟨hname q, (Grammar.forall_of_uses hg hp hps q hq).2⟩
    exact seqFrom_sim hall 0 [] c
  | between o p q ho hp hq =>
    intro c
    refine .bind (ho hg.1 c) fun r r' h => ?_
    cases h
    cases r with
    | failure f => exact .pure rfl
    | success u n₁ =>
      refine .bind (hp hg.2.1 n₁) fun r r' h => ?_
      cases h
      cases r with
      | failure f => exact .pure rfl
      | success v n₂ =>
        refine .bind (hq hg.2.2 n₂) fun r r' h => ?_
        cases h
        cases r with
        | failure f => exact .pure rfl
        | success w n₃ => exact .pure rfl
  | many p hp =>
    intro c
    refine .bind (repeatFrom_sim hk ⟨hname p, hp hg⟩ c []) fun r r' h => ?_
    cases h
    exact .pure rfl
  | many1 p hp =>
    intro c
    refine .bind (repeatFrom_sim hk ⟨hname p, hp hg⟩ c []) fun r r' h => ?_
    cases h
    obtain ⟨values, stop, ended⟩ := r
    cases values with
    | cons v vs => exact .pure rfl
    | nil =>
      cases ended with
      | none => exact .pure rfl
      | some f =>
        simp only [Option.map_some, hname]
        exact .pure (congrArg _ (Failure.insufficient_shift ..).symm)
  | optional p hp =>
    intro c
    refine .bind (hp hg c) fun o o' ho => ?_
    cases ho
    cases o with
    | success v n => exact .pure rfl
    | failure f => exact .pure rfl
  | sepBy p sep hp hsep =>
    intro c
    refine .bind (hp hg.1 c) fun o o' ho => ?_
    cases ho
    cases o with
    | failure f => exact .pure rfl
    | success v n => exact separatedFrom_sim hk ⟨hname p, hp hg.1⟩ ⟨hname sep, hsep hg.2⟩ n [v]
  | sepBy1 p sep hp hsep =>
    intro c
    refine .bind (hp hg.1 c) fun o o' ho => ?_
    cases ho
    cases o with
    | failure f => exact .pure rfl
    | success v n => exact separatedFrom_sim hk ⟨hname p, hp hg.1⟩ ⟨hname sep, hsep hg.2⟩ n [v]
  | token p hp =>
    intro c
    refine .bind (hp hg c) fun o o' ho => ?_
    cases ho
    cases o with
    | failure f => exact .pure rfl
    | success v n =>
      simp only [Outcome.shift, Cursor.skipBlanks_shift]
      exact .pure rfl
  | map p fn hp =>
    refine mapWith_sim hk ⟨hname p, hp hg.1⟩ fun v => .pure ⟨rfl, ?_⟩
    exact hparts.mapping fn hg.2 v
  | mapRun p options inner hp hinner =>
    refine mapWith_sim hk ⟨hname p, hp hg.2.1⟩ fun v => ?_
    refine .bind (hlinks.runInner hg.1 options inner v.text hg.2.2) fun o o' ho => ?_
    subst ho
    refine .pure ⟨rfl, fun e he => ?_⟩
    cases o' <;> cases he
  | named name p hp => exact hp hg
  | ref r => exact hlinks.delegate r hg
  | mark label p hp =>
    intro c
    exact .bind (.emit _ _) fun _ _ _ => hp hg c
  | author name fn =>
    intro c
    exact .pure (hparts.author fn hg c)

end Comparison

end Descent
