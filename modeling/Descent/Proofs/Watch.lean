-- SUMMARY: A run under limits beside the same run without them: what the limits make of it is read off the journal.
import Descent.Proofs.Sharing

/-! # Watching a run

A run looks at its limits at checkpoints: first whether it was cancelled, then whether
its time is over. `Watch` does the same with the journal of a run without limits: it
goes through the events and says whether a run with limits would have been stopped, and
where. Only the checkpoints of the run itself count, not those of runs inside it.

`Pairing.Tracks` says of a computation that this is right. With limits it does what it
does without, and the watch finds nothing to object to, or it is stopped by the fault
that the watch finds. Sequences of such computations are such computations, so this is
a discipline (`Descent.Proofs.Discipline`). -/

namespace Descent

/-! ## The watch -/

/-- What a run watches for, and what is known at some moment. -/
structure Watch where
  /-- The readings of the clock. -/
  clock : Nat → Rat
  /-- Whether the run stops when it is cancelled. -/
  watched : Bool
  deadline : Option Deadline
  cancelled : Bool
  /-- How often the clock was read. -/
  readings : Nat
  /-- How many runs are open, the run itself included. -/
  runs : Nat

namespace Watch

/-- Looks at the limits at a checkpoint. -/
def look (w : Watch) (position : Int) : Except Fault Watch :=
  if w.watched && w.cancelled then .error (.cancelled position)
  else match w.deadline with
    | none => .ok w
    | some d => do
      d.permit (w.clock w.readings) position
      return { w with readings := w.readings + 1 }

theorem look_of_cancelled {w : Watch} (h : (w.watched && w.cancelled) = true) (position : Int) :
    w.look position = .error (.cancelled position) := if_pos h

theorem look_of_not_cancelled {w : Watch} (h : ¬ (w.watched && w.cancelled) = true)
    (position : Int) :
    w.look position = match w.deadline with
      | none => .ok w
      | some d => do
        d.permit (w.clock w.readings) position
        return { w with readings := w.readings + 1 } := if_neg h

/-- What an event means to a run with limits. -/
def step (w : Watch) : Event → Except Fault Watch
  | .running _ _ => .ok { w with runs := w.runs + 1 }
  | .ended => .ok { w with runs := w.runs - 1 }
  | .cancel => .ok { w with cancelled := true }
  | .checkpoint position => if w.runs = 1 then w.look position else .ok w
  | _ => .ok w

/-- Goes through the events, the oldest first. -/
def replay (w : Watch) : Journal → Except Fault Watch
  | [] => .ok w
  | e :: events => w.replay events >>= (·.step e)

section Replay

variable {w w' : Watch} {events later : Journal} {e : Event} {f : Fault}

theorem replay_append (w : Watch) (later events : Journal) :
    w.replay (later ++ events) = w.replay events >>= (·.replay later) := by
  induction later with
  | nil =>
    rw [List.nil_append]
    exact (bind_pure (w.replay events)).symm
  | cons e later ih => rw [List.cons_append, replay, ih, bind_assoc]; rfl

theorem replay_append_of_ok (h : w.replay events = .ok w') (later : Journal) :
    w.replay (later ++ events) = w'.replay later := by
  rw [replay_append, h]
  rfl

theorem replay_append_of_error (h : w.replay events = .error f) (later : Journal) :
    w.replay (later ++ events) = .error f := by
  rw [replay_append, h]
  rfl

/-- What a watch looks for does not change. It knows from the events that the run was
    cancelled. -/
structure Follows (w : Watch) (events : Journal) (w' : Watch) : Prop where
  clock : w'.clock = w.clock
  watched : w'.watched = w.watched
  deadline : w'.deadline = w.deadline
  readings : w.readings ≤ w'.readings
  cancelled : w'.cancelled = true ↔ w.cancelled = true ∨ .cancel ∈ events

theorem Follows.of_same (hcancel : .cancel ∉ events) (hclock : w'.clock = w.clock)
    (hwatched : w'.watched = w.watched) (hdeadline : w'.deadline = w.deadline)
    (hreadings : w.readings ≤ w'.readings) (hcancelled : w'.cancelled = w.cancelled) :
    w.Follows events w' := by
  refine ⟨hclock, hwatched, hdeadline, hreadings, ?_⟩
  rw [hcancelled]
  exact (or_iff_left hcancel).symm

theorem look_follows {position : Int} (hcancel : .cancel ∉ events)
    (h : w.look position = .ok w') : w.Follows events w' := by
  unfold look at h
  split at h
  · cases h
  · cases hdeadline : w.deadline with
    | none =>
      rw [hdeadline] at h
      cases h
      exact .of_same hcancel rfl rfl rfl (Nat.le_refl _) rfl
    | some d =>
      rw [hdeadline] at h
      dsimp only at h
      unfold Deadline.permit at h
      split at h
      · cases h
      · cases h
        exact .of_same hcancel rfl rfl hdeadline.symm (Nat.le_succ _) rfl

theorem step_follows (h : w.step e = .ok w') : w.Follows [e] w' := by
  cases e with
  | checkpoint position =>
    have hcancel : Event.cancel ∉ [.checkpoint position] := by simp
    simp only [step] at h
    split at h
    · exact look_follows hcancel h
    · cases h
      exact .of_same hcancel rfl rfl rfl (Nat.le_refl _) rfl
  | cancel =>
    cases h
    exact ⟨rfl, rfl, rfl, Nat.le_refl _, iff_of_true rfl (.inr List.mem_cons_self)⟩
  | _ =>
    cases h
    exact .of_same (by simp) rfl rfl rfl (Nat.le_refl _) rfl

theorem replay_follows (h : w.replay events = .ok w') : w.Follows events w' := by
  induction events generalizing w' with
  | nil =>
    cases h
    exact .of_same List.not_mem_nil rfl rfl rfl (Nat.le_refl _) rfl
  | cons e events ih =>
    rw [replay] at h
    cases hreplay : w.replay events with
    | error f =>
      rw [hreplay] at h
      cases h
    | ok w₁ =>
      rw [hreplay] at h
      have h₁ := ih hreplay
      have h₂ : w₁.Follows [e] w' := step_follows h
      refine ⟨h₂.clock.trans h₁.clock, h₂.watched.trans h₁.watched,
        h₂.deadline.trans h₁.deadline, Nat.le_trans h₁.readings h₂.readings, ?_⟩
      rw [h₂.cancelled, h₁.cancelled, List.mem_singleton, List.mem_cons, or_assoc]
      exact or_congr_right or_comm

/-- The run comes to a checkpoint of its own after the earlier events, and the limits did
    not stop it before. -/
def Reaches (w : Watch) (events earlier : Journal) (position : Int) : Prop :=
  ∃ w' later, w.replay earlier = .ok w' ∧ w'.runs = 1 ∧
    events = later ++ .checkpoint position :: earlier

/-- The first checkpoint after the run was cancelled stops it. -/
theorem replay_of_cancelled {earlier : Journal} {position : Int}
    (h : w.Reaches events earlier position) (hwatched : w.watched = true)
    (hcancelled : w.cancelled = true ∨ .cancel ∈ earlier) :
    w.replay events = .error (.cancelled position) := by
  obtain ⟨w', later, hreplay, hruns, rfl⟩ := h
  have hfollows := replay_follows hreplay
  have hlimits : (w'.watched && w'.cancelled) = true := by
    rw [hfollows.watched, hwatched, hfollows.cancelled.2 hcancelled]
    rfl
  have hstop : w.replay (.checkpoint position :: earlier) = .error (.cancelled position) := by
    rw [replay, hreplay]
    exact (if_pos hruns).trans (look_of_cancelled hlimits position)
  exact replay_append_of_error hstop later

/-- A watch objects at a checkpoint, because the run was cancelled, or because a reading
    of the clock reached the deadline. -/
inductive Objects (w : Watch) (events : Journal) : Fault → Prop
  | cancelled {position : Int} : .checkpoint position ∈ events → w.watched = true →
      w.cancelled = true ∨ .cancel ∈ events → Objects w events (.cancelled position)
  | deadline {d : Deadline} {k : Nat} {position : Int} : .checkpoint position ∈ events →
      w.deadline = some d → w.readings ≤ k → d.isOver (w.clock k) = true →
      Objects w events (.deadline d.timeout.orZero position)

theorem step_objects (h : w.step e = .error f) : w.Objects [e] f := by
  cases e with
  | checkpoint position =>
    simp only [step] at h
    split at h
    · unfold look at h
      split at h
      · rename_i hcancelled
        cases h
        obtain ⟨hwatched, hcancelled⟩ := Bool.and_eq_true_iff.1 hcancelled
        exact .cancelled List.mem_cons_self hwatched (.inl hcancelled)
      · cases hdeadline : w.deadline with
        | none =>
          rw [hdeadline] at h
          cases h
        | some d =>
          rw [hdeadline] at h
          dsimp only at h
          unfold Deadline.permit at h
          split at h
          · rename_i hover
            cases h
            exact .deadline List.mem_cons_self hdeadline (Nat.le_refl _) hover
          · cases h
    · cases h
  | _ => cases h

theorem replay_objects (h : w.replay events = .error f) : w.Objects events f := by
  induction events with
  | nil => cases h
  | cons e events ih =>
    rw [replay] at h
    cases hreplay : w.replay events with
    | error f' =>
      rw [hreplay] at h
      cases h
      cases ih hreplay with
      | cancelled hmem hwatched hcancelled =>
        exact .cancelled (List.mem_cons_of_mem e hmem) hwatched
          (hcancelled.imp_right (List.mem_cons_of_mem e))
      | deadline hmem hdeadline hk hd =>
        exact .deadline (List.mem_cons_of_mem e hmem) hdeadline hk hd
    | ok w' =>
      rw [hreplay] at h
      have hfollows := replay_follows hreplay
      have hhead : ∀ {e' : Event}, e' ∈ [e] → e' ∈ e :: events := fun hmem =>
        List.mem_singleton.1 hmem ▸ List.mem_cons_self
      cases step_objects h with
      | cancelled hmem hwatched hcancelled =>
        rw [hfollows.watched] at hwatched
        refine .cancelled (hhead hmem) hwatched ?_
        rcases hcancelled with hc | hmem
        · exact (hfollows.cancelled.1 hc).imp_right (List.mem_cons_of_mem e)
        · exact .inr (hhead hmem)
      | deadline hmem hdeadline hk hd =>
        rw [hfollows.deadline] at hdeadline
        rw [hfollows.clock] at hd
        exact .deadline (hhead hmem) hdeadline (Nat.le_trans hfollows.readings hk) hd

end Replay

end Watch

/-! ## Checked delegations -/

/-- Every delegation that was opened or refused comes right after a checkpoint at its
    place. -/
def Journal.Checked : Journal → Prop
  | [] => True
  | .opened _ position _ :: events =>
    events.head? = some (.checkpoint position) ∧ Checked events
  | .depthReached _ _ position :: events =>
    events.head? = some (.checkpoint position) ∧ Checked events
  | _ :: events => Checked events

theorem Journal.Checked.append {events later : Journal} (h : events.Checked)
    (hlater : later.Checked) : Journal.Checked (later ++ events) := by
  have hhead : ∀ {rest : Journal} {e : Event}, rest.head? = some e →
      (rest ++ events).head? = some e := by
    intro rest e he
    cases rest with
    | nil => cases he
    | cons e' rest => exact he
  induction later with
  | nil => exact h
  | cons e later ih =>
    cases e with
    | opened | depthReached => exact ⟨hhead hlater.1, ih hlater.2⟩
    | _ => exact ih hlater

/-! ## Two states -/

/-- The runs inside mapping functions of the parsers that were built have no timeouts. -/
def State.Untimed (t : State) : Prop :=
  ∀ r g, t.cells r = .built g → g.RunsUnder RunOptions.Untimed

/-- Two states that differ in their journals and in the readings of the clock at most. -/
structure State.Twin (s t : State) : Prop where
  cells : s.cells = t.cells
  cancelled : s.cancelled = t.cancelled
  calls : s.calls = t.calls

theorem State.Untimed.setCell {t : State} (h : t.Untimed) (r : Rule) {cell : Cell}
    (hcell : ∀ g, cell = .built g → g.RunsUnder RunOptions.Untimed) :
    (t.setCell r cell).Untimed := by
  intro q g hg
  simp only [State.setCell] at hg
  split at hg
  · exact hcell g hg
  · exact h q g hg

/-- What a watch knows in a state of the run with limits. -/
def Watch.inState (w : Watch) (s : State) : Watch :=
  { w with cancelled := s.cancelled, readings := s.readings }

/-! ## Two evaluations -/

/-- A run with limits beside the same run without them. -/
structure Pairing where
  watch : Watch
  /-- Whether the limits may stop the first run. -/
  stoppable : Prop
  limited : Env
  free : Env

namespace Pairing

variable {α β : Type} {k : Pairing} {E E₁ E₂ : Journal → Prop} {Q : α → Prop} {R : β → Prop}
  {x : Eval α}

/-- The events explain how the first computation ended: it is stopped by what the watch
    finds, or it ends as the second one does. -/
def Explains (k : Pairing) (events : Journal) (s : State) (r r' : Except Fault α × State) : Prop :=
  (k.stoppable ∧ ∃ f, (k.watch.inState s).replay events = .error f ∧ r.1 = .error f) ∨
    ((k.watch.inState s).replay events = .ok (k.watch.inState r.2) ∧ r.1 = r'.1 ∧ r.2.Twin r'.2)

/-- From a state of the second run the computation leads to a result, writing down the
    events. -/
structure Tracked (k : Pairing) (E : Journal → Prop) (Q : α → Prop) (x : Eval α) (t : State)
    (events : Journal) : Prop where
  journal : (x.run k.free t).2.journal = events ++ t.journal
  meets : E events
  untimed : (x.run k.free t).2.Untimed
  answer : ∀ a, (x.run k.free t).1 = .ok a → Q a
  explains : ∀ s : State, s.Twin t → k.Explains events s (x.run k.limited s) (x.run k.free t)

/-- In both runs the computation does the same, up to where the watch objects. -/
def Tracks (k : Pairing) (E : Journal → Prop) (Q : α → Prop) (x : Eval α) : Prop :=
  ∀ t : State, t.Untimed → ∃ events, k.Tracked E Q x t events

theorem Tracks.pure {a : α} (hE : E []) (h : Q a) : k.Tracks E Q (pure a) := by
  intro t ht
  refine ⟨[], rfl, hE, ht, ?_, fun s hst => .inr ⟨rfl, rfl, hst⟩⟩
  intro _ ha
  cases ha
  exact h

theorem Tracks.raise (hE : E []) (f : Fault) : k.Tracks E Q (Eval.raise f) :=
  fun _ ht => ⟨[], rfl, hE, ht, nofun, fun _ hst => .inr ⟨rfl, rfl, hst⟩⟩

theorem Tracks.ofExcept (hE : E []) (r : Except Fault α) :
    k.Tracks E (fun _ => True) (Eval.ofExcept r) := by
  cases r with
  | ok a => exact .pure hE trivial
  | error f => exact .raise hE f

theorem Tracks.mono {E' : Journal → Prop} {Q' : α → Prop} (hx : k.Tracks E Q x)
    (hE : ∀ events, E events → E' events) (hQ : ∀ a, Q a → Q' a) : k.Tracks E' Q' x := by
  intro t ht
  obtain ⟨events, h⟩ := hx t ht
  exact ⟨events, h.journal, hE _ h.meets, h.untimed, fun a ha => hQ a (h.answer a ha), h.explains⟩

/-- What is not stopped is not stopped either where it might be. -/
theorem Tracks.of_steady (hx : Tracks { k with stoppable := False } E Q x) : k.Tracks E Q x := by
  intro t ht
  obtain ⟨events, h⟩ := hx t ht
  refine ⟨events, h.journal, h.meets, h.untimed, h.answer, fun s hst => .inr ?_⟩
  exact (h.explains s hst).resolve_left fun hstop => hstop.1

/-- Two computations one after the other. Once the first is stopped the second only adds
    to the journal of the run without limits, which does not change what the watch found. -/
theorem Tracks.bind {f : α → Eval β} (hx : k.Tracks E₁ Q x) (hf : ∀ a, Q a → k.Tracks E₂ R (f a))
    (hfirst : ∀ events, E₁ events → E events)
    (hboth : ∀ events later, E₁ events → E₂ later → E (later ++ events)) :
    k.Tracks E R (x >>= f) := by
  intro t ht
  obtain ⟨events, hx⟩ := hx t ht
  obtain ⟨hjournal, hevents, huntimed, hanswer, hexplains⟩ := hx
  cases hfree : x.run k.free t with
  | mk r' t' =>
    rw [hfree] at hjournal huntimed hanswer hexplains
    cases r' with
    | error e =>
      have hbind : (x >>= f).run k.free t = (.error e, t') := Eval.run_bind_of_error hfree
      refine ⟨events, ?_, hfirst _ hevents, ?_, ?_, fun s hst => ?_⟩
      · rw [hbind]
        exact hjournal
      · rw [hbind]
        exact huntimed
      · rw [hbind]
        exact nofun
      · rw [hbind, Eval.run_bind]
        have h := hexplains s hst
        cases hlimited : x.run k.limited s with
        | mk r s' =>
          rw [hlimited] at h
          rcases h with ⟨hstop, f, hreplay, rfl⟩ | ⟨hreplay, rfl, htwin⟩
          · exact .inl ⟨hstop, f, hreplay, rfl⟩
          · exact .inr ⟨hreplay, rfl, htwin⟩
    | ok a =>
      have hbind : (x >>= f).run k.free t = (f a).run k.free t' := Eval.run_bind_of_ok hfree
      obtain ⟨later, hf⟩ := hf a (hanswer a rfl) t' huntimed
      refine ⟨later ++ events, ?_, hboth _ _ hevents hf.meets, ?_, ?_, fun s hst => ?_⟩
      · rw [hbind, hf.journal, hjournal, List.append_assoc]
      · rw [hbind]
        exact hf.untimed
      · rw [hbind]
        exact hf.answer
      · rw [hbind, Eval.run_bind]
        have h := hexplains s hst
        cases hlimited : x.run k.limited s with
        | mk r s' =>
          rw [hlimited] at h
          rcases h with ⟨hstop, f, hreplay, rfl⟩ | ⟨hreplay, rfl, htwin⟩
          · exact .inl ⟨hstop, f, Watch.replay_append_of_error hreplay later, rfl⟩
          · rw [Explains, Watch.replay_append_of_ok hreplay later]
            exact hf.explains s' htwin

/-- Two computations each of which checks its delegations. -/
theorem Tracks.next {f : α → Eval β} (hx : k.Tracks Journal.Checked Q x)
    (hf : ∀ a, Q a → k.Tracks Journal.Checked R (f a)) :
    k.Tracks Journal.Checked R (x >>= f) :=
  .bind hx hf (fun _ h => h) fun _ _ => .append

theorem Tracks.modify {f : State → State} (hE : E []) (hjournal : ∀ s, (f s).journal = s.journal)
    (hwatch : ∀ s, (f s).cancelled = s.cancelled ∧ (f s).readings = s.readings)
    (huntimed : ∀ s : State, s.Untimed → (f s).Untimed)
    (htwin : ∀ s t : State, s.Twin t → (f s).Twin (f t)) :
    k.Tracks E (fun _ => True) (Eval.modify f) := by
  intro t ht
  refine ⟨[], hjournal t, hE, huntimed t ht, fun _ _ => trivial, fun s hst => .inr ⟨?_, rfl, ?_⟩⟩
  · simp only [Watch.replay, Watch.inState, Eval.run_modify, (hwatch s).1, (hwatch s).2]
  · exact htwin s t hst

theorem Tracks.setCell (hE : E []) (r : Rule) {cell : Cell}
    (hcell : ∀ g, cell = .built g → g.RunsUnder RunOptions.Untimed) :
    k.Tracks E (fun _ => True) (Eval.modify (·.setCell r cell)) := by
  refine .modify hE (fun _ => rfl) (fun _ => ⟨rfl, rfl⟩) (fun _ h => h.setCell r hcell) ?_
  intro s t hst
  refine ⟨?_, hst.cancelled, hst.calls⟩
  simp only [State.setCell, hst.cells]

/-- An event that means nothing to a watch. -/
theorem Tracks.emit {e : Event} (hstep : ∀ w : Watch, w.step e = .ok w) (hE : E [e]) :
    k.Tracks E (fun _ => True) (Eval.emit e) := by
  intro t ht
  refine ⟨[e], rfl, hE, ht, fun _ _ => trivial, fun s hst => .inr ⟨hstep _, rfl, ?_⟩⟩
  exact ⟨hst.cells, hst.cancelled, hst.calls⟩

/-- A predicate cancels the runs that watch for it. -/
theorem Tracks.cancel : k.Tracks Journal.Checked (fun _ => True) (do
    Eval.emit .cancel
    Eval.modify State.cancel) := by
  intro t ht
  refine ⟨[.cancel], rfl, trivial, ht, fun _ _ => trivial, fun s hst => .inr ⟨rfl, rfl, ?_⟩⟩
  exact ⟨hst.cells, rfl, hst.calls⟩

/-- A computation that looks at the environment, but not at the limits. -/
theorem Tracks.ask {f : Env → Eval α} (hsame : f k.free = f k.limited)
    (hf : k.Tracks E Q (f k.limited)) : k.Tracks E Q (Eval.ask >>= f) := by
  intro t ht
  obtain ⟨events, h⟩ := hf t ht
  have hfree : (Eval.ask >>= f).run k.free t = (f k.limited).run k.free t := by
    rw [← hsame]
    rfl
  refine ⟨events, ?_, h.meets, ?_, ?_, fun s hst => ?_⟩
  · rw [hfree]
    exact h.journal
  · rw [hfree]
    exact h.untimed
  · rw [hfree]
    exact h.answer
  · rw [hfree]
    exact h.explains s hst

/-- A computation that looks at the state, but not at the journal or the readings. -/
theorem Tracks.get {f : State → Eval α} (hsame : ∀ s t : State, s.Twin t → f s = f t)
    (hf : ∀ t : State, t.Untimed → k.Tracks E Q (f t)) : k.Tracks E Q (Eval.get >>= f) := by
  intro t ht
  obtain ⟨events, h⟩ := hf t ht t ht
  refine ⟨events, h.journal, h.meets, h.untimed, h.answer, fun s hst => ?_⟩
  have hlimited : (Eval.get >>= f).run k.limited s = (f t).run k.limited s := by
    rw [← hsame s t hst]
    rfl
  rw [hlimited]
  exact h.explains s hst

/-- A computation that is not stopped may be attempted. -/
theorem Tracks.attempt (hx : Tracks { k with stoppable := False } E Q x) :
    k.Tracks E (fun r => ∀ a, r = .ok a → Q a) (Eval.attempt x) := by
  intro t ht
  obtain ⟨events, h⟩ := hx t ht
  refine ⟨events, h.journal, h.meets, h.untimed, ?_, fun s hst => .inr ?_⟩
  · intro r hr a ha
    cases hr
    exact h.answer a ha
  · obtain ⟨hreplay, hanswer, htwin⟩ := (h.explains s hst).resolve_left fun hstop => hstop.1
    exact ⟨hreplay, congrArg Except.ok hanswer, htwin⟩

end Pairing

end Descent
