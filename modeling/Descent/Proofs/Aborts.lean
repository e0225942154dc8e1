-- SUMMARY: To cancel a run or to give it a deadline only stops it.
import Descent.Proofs.RunFaults
import Descent.Proofs.Watch

/-! # Aborts

A run that can be cancelled, or that has a deadline, does what the same run does without
either, until the limits stop it. Where that happens the journal of the run without
limits tells: `Grammar.run_limited`. The first checkpoint of the run after it was
cancelled stops it, and so does the first one whose reading of the clock reaches the
deadline. A delegation comes right after a checkpoint, so both limits are looked at
before the depth guard.

A run inside a mapping function has limits of its own. It must not have a timeout: the
clock is read more often in the run with limits, so the two would not see the same
readings. -/

namespace Descent

theorem run_checkpoint {env : Env} {scope : Scope} (h : env.scope = some scope) (position : Int)
    (s : State) :
    (checkpoint position).run env s =
      if scope.watched && s.cancelled then
        (.error (.cancelled position), s.emit (.checkpoint position))
      else match scope.deadline with
        | none => (.ok (), s.emit (.checkpoint position))
        | some d => (d.permit (env.clock s.readings) position,
            { s.emit (.checkpoint position) with readings := s.readings + 1 }) := by
  simp only [checkpoint, Eval.run_bind, Eval.run_ask, h, Eval.run_emit, Eval.run_get]
  have hcancelled : (s.emit (.checkpoint position)).cancelled = s.cancelled := rfl
  rw [hcancelled]
  split
  · rfl
  · cases scope.deadline <;> rfl

namespace Pairing

/-! ## Steps -/

/-- What two runs have in common wherever they are. -/
structure Paired (k : Pairing) : Prop where
  rules : k.free.rules = k.limited.rules
  clock : k.limited.clock = k.watch.clock
  untimed : ∀ r g, (k.limited.rules r).body.parser? = some g → g.RunsUnder RunOptions.Untimed
  runs : 0 < k.watch.runs

/-- The scopes of the two runs. Runs inside them have the same scope in both. -/
inductive Scoped (k : Pairing) : Prop
  | own {guard : Guard} : k.watch.runs = 1 → k.stoppable →
      k.limited.scope = some ⟨guard, k.watch.deadline, k.watch.watched⟩ →
      k.free.scope = some ⟨guard, none, false⟩ → Scoped k
  | inner {guard : Guard} {watched : Bool} : k.watch.runs ≠ 1 →
      k.limited.scope = some ⟨guard, none, watched⟩ →
      k.free.scope = some ⟨guard, none, watched⟩ → Scoped k

/-- Two runs that differ in their limits at most. -/
structure Lawful (k : Pairing) : Prop extends Paired k where
  scopes : k.Scoped

variable {α β : Type} {k : Pairing} {E : Journal → Prop} {Q : α → Prop} {x y : Eval α}

/-- The run with limits looks at them as the watch does. -/
theorem checkpoint_explains {guard : Guard} (hclock : k.limited.clock = k.watch.clock)
    (hruns : k.watch.runs = 1) (hstop : k.stoppable)
    (hlimited : k.limited.scope = some ⟨guard, k.watch.deadline, k.watch.watched⟩)
    (position : Int) {s t : State} (hst : s.Twin t) :
    k.Explains [.checkpoint position] s ((checkpoint position).run k.limited s)
      (.ok (), t.emit (.checkpoint position)) := by
  have hreplay : (k.watch.inState s).replay [.checkpoint position] =
      (k.watch.inState s).look position := if_pos hruns
  have htwin : ∀ n, State.Twin { s.emit (.checkpoint position) with readings := n }
      (t.emit (.checkpoint position)) := fun _ => ⟨hst.cells, hst.cancelled, hst.calls⟩
  rw [Explains, hreplay, run_checkpoint hlimited, hclock]
  by_cases hcancelled : (k.watch.watched && s.cancelled) = true
  · have hlook := @Watch.look_of_cancelled (k.watch.inState s) hcancelled position
    rw [hlook, if_pos hcancelled]
    exact .inl ⟨hstop, _, rfl, rfl⟩
  · have hlook := @Watch.look_of_not_cancelled (k.watch.inState s) hcancelled position
    rw [hlook, if_neg hcancelled]
    dsimp only [Watch.inState]
    cases k.watch.deadline with
    | none => exact .inr ⟨rfl, rfl, htwin _⟩
    | some d =>
      dsimp only
      cases hpermit : d.permit (k.watch.clock s.readings) position with
      | error f => exact .inl ⟨hstop, f, rfl, rfl⟩
      | ok u => exact .inr ⟨rfl, rfl, htwin _⟩

theorem checkpoint_tracks (hk : k.Lawful) (position : Int) :
    k.Tracks (· = [.checkpoint position]) (fun _ => True) (checkpoint position) := by
  intro t ht
  refine ⟨[.checkpoint position], ?_⟩
  cases hk.scopes with
  | own hruns hstop hlimited hfree =>
    have hrun : (checkpoint position).run k.free t = (.ok (), t.emit (.checkpoint position)) := by
      rw [run_checkpoint hfree]
      rfl
    refine ⟨?_, rfl, ?_, fun _ _ => trivial, fun s hst => ?_⟩
    · rw [hrun]
      rfl
    · rw [hrun]
      exact ht
    · rw [hrun]
      exact checkpoint_explains hk.clock hruns hstop hlimited position hst
  | @inner guard watched hruns hlimited hfree =>
    -- The watch passes over the checkpoints of other runs.
    have hreplay : ∀ s : State, (k.watch.inState s).replay [.checkpoint position] =
        .ok (k.watch.inState s) := fun s => if_neg hruns
    have hrun : ∀ {env : Env} (s : State), env.scope = some ⟨guard, none, watched⟩ →
        (checkpoint position).run env s =
          (if watched && s.cancelled then .error (.cancelled position) else .ok (),
            s.emit (.checkpoint position)) := by
      intro env s henv
      rw [run_checkpoint henv]
      split <;> rfl
    refine ⟨?_, rfl, ?_, fun _ _ => trivial, fun s hst => .inr ⟨?_, ?_, ?_⟩⟩
    · rw [hrun t hfree]
      rfl
    · rw [hrun t hfree]
      exact ht
    · rw [hrun s hlimited]
      exact hreplay s
    · rw [hrun s hlimited, hrun t hfree, hst.cancelled]
    · rw [hrun s hlimited, hrun t hfree]
      exact ⟨hst.cells, hst.cancelled, hst.calls⟩

/-- A delegation, which comes after a checkpoint. -/
theorem checkpoint_next {position : Int} (hk : k.Lawful)
    (hy : k.Tracks (fun events => Journal.Checked (events ++ [.checkpoint position])) Q y) :
    k.Tracks Journal.Checked Q (checkpoint position >>= fun _ => y) := by
  refine .bind (checkpoint_tracks hk position) (fun _ _ => hy) ?_ ?_
  · intro events hevents
    rw [hevents]
    trivial
  · intro events later hevents hlater
    rw [hevents]
    exact hlater

theorem apply_tracks (p : Predicate) (ch : Char) :
    k.Tracks Journal.Checked (fun _ => True) (p.apply ch) := by
  have hpull : ∀ trigger, k.Tracks Journal.Checked (fun _ => True) (Predicate.pull trigger) := by
    intro trigger
    refine .get (fun s t hst => by rw [hst.calls]) fun t _ => ?_
    refine .next (.modify trivial (fun _ => rfl) (fun _ => ⟨rfl, rfl⟩) (fun _ h => h)
      fun _ _ hst => ⟨hst.cells, hst.cancelled, rfl⟩) fun _ _ => ?_
    split
    · exact .cancel
    · exact .pure trivial trivial
  unfold Predicate.apply
  cases p.trigger with
  | none => exact .ofExcept trivial _
  | some trigger => exact .next (hpull trigger) fun _ _ => .ofExcept trivial _

/-- The discipline of computations that do the same under limits, until these stop them. -/
def watching : Discipline where
  options := RunOptions.Untimed
  Obeys := fun x => ∀ k : Pairing, k.Lawful → k.Tracks Journal.Checked (fun _ => True) x

theorem watching_lawful : watching.Lawful where
  pure := fun _ _ _ => .pure trivial trivial
  bind := fun hx hf k hk => .next (hx k hk) fun a _ => hf a k hk
  raise := fun f _ _ => .raise trivial f
  remark := by
    intro e he k _
    cases e with
    | mark | zeroWidth => exact .emit (fun _ => rfl) trivial
    | _ => exact he.elim
  checkpoint := by
    intro position k hk
    refine (checkpoint_tracks hk position).mono ?_ fun _ h => h
    intro events hevents
    rw [hevents]
    trivial
  apply := fun _ ch k _ => apply_tracks _ ch

/-! ## Rules -/

/-- The runs of grammars are not stopped by the limits of other runs. -/
def TracksRuns (runInner : RunGrammar) : Prop :=
  ∀ k : Pairing, k.Paired → ∀ o (g : Grammar) text, o.Untimed → g.RunsUnder RunOptions.Untimed →
    k.Tracks Journal.Checked (fun _ => True) (runInner o g text)

section Rules

variable {runInner : RunGrammar}

theorem Paired.steady (hk : k.Paired) : Paired { k with stoppable := False } :=
  ⟨hk.rules, hk.clock, hk.untimed, hk.runs⟩

/-- A builder is not stopped by the limits. -/
theorem build_tracks (hrun : TracksRuns runInner) (hk : k.Paired) (r : Rule) (b : Body)
    (hb : ∀ g, b.parser? = some g → g.RunsUnder RunOptions.Untimed) :
    k.Tracks Journal.Checked (fun a => ∀ g, a = .inl g → g.RunsUnder RunOptions.Untimed)
      (b.build runInner r) := by
  have hused : ∀ used source, Tracks { k with stoppable := False } Journal.Checked (fun _ => True)
      (runInner {} (.ref used) source) :=
    fun used source => hrun _ hk.steady {} (.ref used) source rfl trivial
  induction b with
  | grammar g =>
    refine .pure trivial ?_
    intro _ hg
    cases hg
    exact hb g rfl
  | plain p => exact .pure trivial nofun
  | raise f => exact .raise trivial f
  | run used source next ih => exact .next (hused used source).of_steady fun _ _ => ih hb
  | tryRun used source next ih =>
    refine .next (.attempt (hused used source)) fun a _ => ?_
    cases a with
    | ok o => exact ih hb
    | error f =>
      dsimp only
      split
      · exact .next (.emit (fun _ => rfl) trivial) fun _ _ => ih hb
      · exact .raise trivial f

theorem breakRule_tracks (r : Rule) (d : Diagnostic) (cause : Option Fault) :
    k.Tracks Journal.Checked Q (breakRule r d cause) :=
  .next (.setCell trivial r nofun) fun _ _ => .raise trivial _

/-- In both runs a rule is the same parser. -/
theorem resolve_tracks (hrun : TracksRuns runInner) (hk : k.Paired) (r : Rule) :
    k.Tracks Journal.Checked (fun g => g.RunsUnder RunOptions.Untimed) (resolve runInner r) := by
  have hname : k.free.ruleName = k.limited.ruleName := by
    unfold Env.ruleName
    rw [hk.rules]
  have hbuild : k.Tracks Journal.Checked (fun g => g.RunsUnder RunOptions.Untimed)
      (buildRule runInner r) := by
    refine .ask (by rw [hname, hk.rules]) ?_
    refine .next (.setCell trivial r nofun) fun _ _ => ?_
    refine .next (.emit (fun _ => rfl) trivial) fun _ _ => ?_
    refine .next (.attempt (build_tracks hrun hk.steady r _ (hk.untimed r))) fun a ha => ?_
    obtain f | g | p := a
    · exact .next (.emit (fun _ => rfl) trivial) fun _ _ => breakRule_tracks r _ _
    · -- The builder handed back a parser.
      have hg : g.RunsUnder RunOptions.Untimed := ha _ rfl g rfl
      refine .next (.emit (fun _ => rfl) trivial) fun _ _ => ?_
      refine .next (.setCell trivial r ?_) fun _ _ => .pure trivial hg
      intro _ hcell
      cases hcell
      exact hg
    · exact .next (.emit (fun _ => rfl) trivial) fun _ _ => breakRule_tracks r _ _
  refine .get (fun s t hst => by rw [hst.cells]) fun t ht => ?_
  cases hcell : t.cells r with
  | unbuilt => exact hbuild
  | building =>
    exact .ask (by rw [hname]) (.raise trivial _)
  | built g => exact .pure trivial (ht r g hcell)
  | failed d cause => exact .raise trivial _

end Rules

/-! ## Delegations -/

/-- Between two events the computation goes on in other environments. The watch takes
    the first event for the change to them, and the second for the change back. -/
theorem enclosed_tracks (k' : Pairing) (e e' : Event)
    (hfirst : ∀ s, (k.watch.inState s).step e = .ok (k'.watch.inState s))
    (hlast : ∀ s, (k'.watch.inState s).step e' = .ok (k.watch.inState s))
    (hstop : k'.stoppable → k.stoppable) (hx : k'.Tracks Journal.Checked Q x)
    (hE : ∀ events : Journal, events.Checked → E (e' :: (events ++ [e])))
    (hlimited : ∀ s, y.run k.limited s = (Eval.closing e' x).run k'.limited (s.emit e))
    (hfree : ∀ t, y.run k.free t = (Eval.closing e' x).run k'.free (t.emit e)) :
    k.Tracks E Q y := by
  intro t ht
  obtain ⟨events, hx⟩ := hx (t.emit e) ht
  refine ⟨e' :: (events ++ [e]), ?_, hE events hx.meets, ?_, ?_, fun s hst => ?_⟩
  · rw [hfree, Eval.run_closing, List.cons_append, List.append_assoc]
    exact congrArg (List.cons e') hx.journal
  · rw [hfree, Eval.run_closing]
    exact hx.untimed
  · rw [hfree, Eval.run_closing]
    exact hx.answer
  · rw [hfree, hlimited, Eval.run_closing, Eval.run_closing]
    have hbefore : (k.watch.inState s).replay [e] = .ok (k'.watch.inState (s.emit e)) := hfirst s
    have hreplay := Watch.replay_append_of_ok hbefore events
    rcases hx.explains (s.emit e) ⟨hst.cells, hst.cancelled, hst.calls⟩ with
      ⟨hk', f, hf, hanswer⟩ | ⟨hf, hanswer, htwin⟩
    · rw [← hreplay] at hf
      exact .inl ⟨hstop hk', f, Watch.replay_append_of_error hf [e'], hanswer⟩
    · rw [← hreplay] at hf
      have hafter := Watch.replay_append_of_ok hf [e']
      exact .inr ⟨hafter.trans (hlast _), hanswer, htwin.cells, htwin.cancelled, htwin.calls⟩

/-- One more delegation is open in both runs. -/
def deeper (k : Pairing) : Pairing :=
  let enter (scope : Scope) : Scope := { scope with guard := scope.guard.enter }
  { k with
    limited := { k.limited with scope := k.limited.scope.map enter }
    free := { k.free with scope := k.free.scope.map enter } }

theorem Lawful.deeper (hk : k.Lawful) : k.deeper.Lawful := by
  refine ⟨⟨hk.rules, hk.clock, hk.untimed, hk.runs⟩, ?_⟩
  cases hk.scopes with
  | own hruns hstop hlimited hfree =>
    refine .own hruns hstop (congrArg (Option.map _) hlimited) (congrArg (Option.map _) hfree)
  | inner hruns hlimited hfree =>
    refine .inner hruns (congrArg (Option.map _) hlimited) (congrArg (Option.map _) hfree)

/-- The depth guard is the same in both runs. -/
theorem Lawful.scope (hk : k.Lawful) : ∃ a b : Scope, k.limited.scope = some a ∧
    k.free.scope = some b ∧ a.guard = b.guard := by
  cases hk.scopes with
  | own _ _ hlimited hfree => exact ⟨_, _, hlimited, hfree, rfl⟩
  | inner _ hlimited hfree => exact ⟨_, _, hlimited, hfree, rfl⟩

theorem deeper_tracks (hk : k.Lawful) (hx : k.deeper.Tracks Journal.Checked Q x) (r : Rule)
    (position : Nat) :
    k.Tracks (fun events => Journal.Checked (events ++ [.checkpoint position])) Q
      (Descent.deeper r position x) := by
  obtain ⟨a, b, ha, hb, hguard⟩ := hk.scope
  refine enclosed_tracks k.deeper (.opened r position a.guard.enter.depth) (.closed r)
    (fun _ => rfl) (fun _ => rfl) (fun h => h) hx ?_ (fun s => ?_) fun t => ?_
  · intro events hevents
    rw [List.cons_append, List.append_assoc]
    exact Journal.Checked.append ⟨rfl, trivial⟩ hevents
  · rw [run_deeper ha]
    unfold Pairing.deeper
    rw [ha]
    rfl
  · rw [run_deeper hb, hguard]
    unfold Pairing.deeper
    rw [hb]
    rfl

theorem refuse_tracks (hk : k.Lawful) (r : Rule) (position : Nat) :
    k.Tracks (fun events => Journal.Checked (events ++ [.checkpoint position])) Q
      (refuse r position) := by
  obtain ⟨a, b, ha, hb, hguard⟩ := hk.scope
  have hname : k.free.ruleName r = k.limited.ruleName r := by
    unfold Env.ruleName
    rw [hk.rules]
  refine .ask ?_ ?_
  · simp only [ha, hb, hguard, hname]
  · simp only [ha]
    have hE : Journal.Checked
        [.depthReached a.guard.limit (k.limited.ruleName r) position, .checkpoint position] :=
      ⟨rfl, trivial⟩
    have hraise : ∀ f, k.Tracks Journal.Checked Q (Eval.raise f) := fun f => .raise trivial f
    refine .bind (.emit (fun _ => rfl) hE) (fun _ _ => hraise _) (fun _ h => h) ?_
    intro events later hevents hlater
    rw [List.append_assoc]
    exact hevents.append hlater

theorem links_watching {runInner : RunGrammar} (hrun : TracksRuns runInner) (rules : Rules)
    (allowance : Nat) : (rules.links runInner allowance).Obey watching := by
  have hinner : ∀ o (g : Grammar) text, o.Untimed → g.RunsUnder RunOptions.Untimed →
      watching.Obeys (runInner o g text) :=
    fun o g text ho hg k hk => hrun k hk.toPaired o g text ho hg
  induction allowance with
  | zero =>
    refine ⟨fun r c _ k hk => ?_, fun _ o g text ho _ hg => hinner o g text ho hg⟩
    refine .next (resolve_tracks hrun hk.toPaired r) fun _ _ => ?_
    exact checkpoint_next hk (refuse_tracks hk r c.pos)
  | succ n ih =>
    refine ⟨fun r c _ k hk => ?_, fun _ o g text ho _ hg => hinner o g text ho hg⟩
    refine .next (resolve_tracks hrun hk.toPaired r) fun g hg => ?_
    have hg' : watching.Parses (g.denote (rules.links runInner n)) :=
      g.obeys watching_lawful ih g.uses_all hg
    exact checkpoint_next hk (deeper_tracks hk (hg' c k.deeper hk.deeper) r c.pos)

/-! ## Runs -/

theorem noteLowered_tracks (maxDepth : Int) :
    k.Tracks Journal.Checked (fun _ => True) (noteLowered maxDepth) := by
  unfold noteLowered StackBudget.lowered?
  split
  · rename_i e he
    split at he <;> cases he
    exact .emit (fun _ => rfl) trivial
  · exact .pure trivial trivial

theorem conclude_tracks (p : Parser) (o : Outcome) :
    k.Tracks Journal.Checked (fun _ => True) (p.conclude o) := by
  cases o with
  | success v n => exact .pure trivial trivial
  | failure f => exact .next (.emit (fun _ => rfl) trivial) fun _ _ => .pure trivial trivial

/-- One more run is open in both, with the scopes given. -/
def within (k : Pairing) (stoppable : Prop) (scope scope' : Scope) : Pairing where
  watch := { k.watch with runs := k.watch.runs + 1 }
  stoppable := stoppable
  limited := { k.limited with scope := some scope }
  free := { k.free with scope := some scope' }

/-- A run between its start and its end, when the computations inside it are tracked. -/
theorem started_tracks {scope scope' : Scope} {stoppable : Prop} (hstop : stoppable → k.stoppable)
    (hx : (k.within stoppable scope scope').Tracks Journal.Checked Q x) (name : String) (size : Nat)
    (hlimited : ∀ s, y.run k.limited s = (Eval.closing .ended x).run
      (k.within stoppable scope scope').limited (s.emit (.running name size)))
    (hfree : ∀ t, y.run k.free t = (Eval.closing .ended x).run
      (k.within stoppable scope scope').free (t.emit (.running name size))) :
    k.Tracks Journal.Checked Q y := by
  refine enclosed_tracks (k.within stoppable scope scope') (.running name size) .ended
    (fun _ => rfl) (fun _ => rfl) hstop hx ?_ hlimited hfree
  intro events hevents
  have hfirst : Journal.Checked [.running name size] := trivial
  exact hfirst.append hevents

/-- A run inside the two runs is the same in both. -/
theorem run_tracks {p : Parser} (hp : watching.Parses p) (hk : k.Paired) {o : RunOptions}
    (ho : o.Untimed) (source : Source) :
    k.Tracks Journal.Checked (fun _ => True) (p.run o source) := by
  let scope : Scope := { guard := .ofRequested o.maxDepth, watched := o.watched }
  have hopen : openScope o.maxDepth o.timeout o.watched =
      noteLowered o.maxDepth >>= fun _ => pure scope := by
    rw [ho]
    rfl
  have hruns : k.watch.runs + 1 ≠ 1 := Nat.succ_ne_succ_iff.2 (Nat.ne_of_gt hk.runs)
  have hinside : (k.within False scope scope).Lawful :=
    ⟨⟨hk.rules, hk.clock, hk.untimed, Nat.succ_pos _⟩, .inner hruns rfl rfl⟩
  rw [Parser.run_eq]
  split
  · exact .raise trivial _
  · rw [hopen, Eval.bind_assoc]
    refine .next (noteLowered_tracks _) fun _ _ => ?_
    rw [Eval.pure_bind, ← Eval.bind_assoc]
    have hstarted : k.Tracks Journal.Checked (fun _ => True) (do
        Eval.emit (.running p.name source.size)
        Eval.closing .ended (Eval.within (some scope) (p.fn (.start source)))) :=
      started_tracks False.elim (hp (.start source) _ hinside) p.name source.size
        (fun _ => rfl) fun _ => rfl
    exact .next hstarted fun out _ => conclude_tracks p (out.whole o)

theorem runNested_tracks (rules : Rules) (runs : Nat) :
    TracksRuns (Grammar.runNested rules.ruleName runs) := by
  induction runs with
  | zero => exact fun _ _ _ _ _ _ _ => .raise trivial _
  | succ n ih =>
    intro k hk o g text ho hg
    have hlinks := links_watching ih rules o.allowance
    exact run_tracks (g.obeys watching_lawful hlinks g.uses_all hg) hk ho _

end Pairing

/-! ## The run itself -/

/-- The same options, with nothing that stops a run. -/
def RunOptions.unlimited (o : RunOptions) : RunOptions :=
  { o with timeout := none, watched := false }

/-- What a run watches for from its start on. -/
def RunOptions.watch (o : RunOptions) (clock : Nat → Rat) (s : State) : Except Fault Watch := do
  let d ← o.deadline (clock s.readings)
  return ⟨clock, o.watched, d, s.cancelled, s.readings + o.readings, 0⟩

/-- A run whose limits are set. -/
def Parser.started (p : Parser) (o : RunOptions) (source : Source) : Eval Outcome := do
  Eval.emit (.running p.name source.size)
  let outcome ← Eval.closing .ended (p.fn (.start source))
  p.conclude (outcome.whole o)

/-- A run beside the one with the same guard and no limits, both with their limits set. -/
def Pairing.outset (w : Watch) (env : Env) (guard : Guard) : Pairing where
  watch := w
  stoppable := True
  limited := { env with scope := some ⟨guard, w.deadline, w.watched⟩ }
  free := { env with scope := some ⟨guard, none, false⟩ }

section Outset

variable {o : RunOptions} {env : Env} {s : State} {w : Watch} {p : Parser} {source : Source}

theorem RunOptions.watch_ok {clock : Nat → Rat} (h : o.watch clock s = .ok w) :
    ∃ d, o.deadline (clock s.readings) = .ok d ∧
      w = ⟨clock, o.watched, d, s.cancelled, s.readings + o.readings, 0⟩ := by
  unfold watch at h
  cases hdeadline : o.deadline (clock s.readings) with
  | error f =>
    rw [hdeadline] at h
    cases h
  | ok d =>
    rw [hdeadline] at h
    cases h
    exact ⟨d, rfl, rfl⟩

theorem RunOptions.watch_error {clock : Nat → Rat} {f : Fault} (h : o.watch clock s = .error f) :
    o.Refused ∧ f = .timeoutTooLarge := by
  unfold watch at h
  cases hdeadline : o.deadline (clock s.readings) with
  | error f' =>
    rw [hdeadline] at h
    cases h
    exact deadline_error hdeadline
  | ok d =>
    rw [hdeadline] at h
    cases h

theorem RunOptions.foreword_checked (o : RunOptions) : o.foreword.Checked := by
  unfold foreword StackBudget.lowered?
  split <;> trivial

theorem RunOptions.replay_foreword (o : RunOptions) (w : Watch) : w.replay o.foreword = .ok w := by
  unfold foreword StackBudget.lowered?
  split <;> rfl

/-- The limits of a run are set, and then its parser is tried. -/
theorem Parser.run_of_watch (hsize : o.rejects source.size = false)
    (h : o.watch env.clock s = .ok w) :
    (p.run o source).run env s =
      (p.started o source).run (Pairing.outset w env (.ofRequested o.maxDepth)).limited
        { s with
          journal := o.foreword ++ s.journal
          readings := w.readings } := by
  -- To end a run takes no look at the limits.
  have hconclude : ∀ (out : Outcome) (env' : Env) (s' : State),
      (p.conclude out).run env s' = (p.conclude out).run env' s' := by
    intro out env' s'
    cases out <;> rfl
  obtain ⟨d, hdeadline, rfl⟩ := RunOptions.watch_ok h
  have hopen := run_openScope o env s
  rw [hdeadline] at hopen
  rw [Parser.run_eq, hsize, if_neg Bool.false_ne_true, Eval.run_bind_of_ok hopen]
  unfold Parser.started Pairing.outset
  simp only [Eval.run_bind, Eval.run_emit, Eval.run_closing, Eval.run_within]
  split
  · exact hconclude _ _ _
  · rfl

theorem Parser.started_tracks (hp : Pairing.watching.Parses p) (hclock : w.clock = env.clock)
    (hruns : w.runs = 0)
    (hrules : ∀ r g, (env.rules r).body.parser? = some g → g.RunsUnder RunOptions.Untimed)
    (guard : Guard) :
    (Pairing.outset w env guard).Tracks Journal.Checked (fun _ => True) (p.started o source) := by
  let k := Pairing.outset w env guard
  let scope : Scope := ⟨guard, w.deadline, w.watched⟩
  have hopened : w.runs + 1 = 1 := by rw [hruns]
  have hinside : (k.within True scope ⟨guard, none, false⟩).Lawful :=
    ⟨⟨rfl, hclock.symm, hrules, Nat.succ_pos _⟩, .own hopened trivial rfl rfl⟩
  have hrunning : k.Tracks Journal.Checked (fun _ => True) (do
      Eval.emit (.running p.name source.size)
      Eval.closing .ended (p.fn (.start source))) :=
    Pairing.started_tracks (fun _ => trivial) (hp (.start source) _ hinside) p.name source.size
      (fun _ => rfl) fun _ => rfl
  unfold Parser.started
  rw [← Eval.bind_assoc]
  exact .next hrunning fun out _ => Pairing.conclude_tracks p (out.whole o)

/-- A run is stopped where the watch objects to the events of the run without limits. -/
theorem Parser.run_watched (hp : Pairing.watching.Parses p) (hclock : w.clock = env.clock)
    (hruns : w.runs = 0)
    (hrules : ∀ r g, (env.rules r).body.parser? = some g → g.RunsUnder RunOptions.Untimed)
    (hs : s.Untimed) (hsize : o.rejects source.size = false) :
    ∃ events : Journal,
      ((p.run o.unlimited source).run env s).2.journal = events ++ s.journal ∧
      events.Checked ∧
      (o.watch env.clock s = .ok w → ((p.run o source).run env s).1 =
        w.replay events >>= fun _ => ((p.run o.unlimited source).run env s).1) := by
  let guard := Guard.ofRequested o.maxDepth
  let t : State := { s with journal := o.foreword ++ s.journal }
  have hfree : (p.run o.unlimited source).run env s =
      (p.started o source).run (Pairing.outset w env guard).free t := by
    have hsize : o.unlimited.rejects source.size = false := hsize
    have hwatch : o.unlimited.watch env.clock s =
        .ok ⟨env.clock, false, none, s.cancelled, s.readings, 0⟩ := rfl
    exact Parser.run_of_watch hsize hwatch
  have htracks : (Pairing.outset w env guard).Tracks Journal.Checked (fun _ => True)
      (p.started o source) := Parser.started_tracks hp hclock hruns hrules guard
  obtain ⟨events, htracked⟩ := htracks t hs
  have hreplay : ∀ w : Watch, w.replay (events ++ o.foreword) = w.replay events :=
    fun w => Watch.replay_append_of_ok (o.replay_foreword w) events
  refine ⟨events ++ o.foreword, ?_, o.foreword_checked.append htracked.meets, fun hwatch => ?_⟩
  · rw [hfree, htracked.journal, List.append_assoc]
  · obtain ⟨d, -, hw⟩ := RunOptions.watch_ok hwatch
    have hstate : w.inState { t with readings := w.readings } = w := by rw [hw]; rfl
    have htwin : State.Twin { t with readings := w.readings } t := ⟨rfl, rfl, rfl⟩
    have hexplains := htracked.explains _ htwin
    have hlimited : (p.run o source).run env s =
        (p.started o source).run (Pairing.outset w env guard).limited
          { t with readings := w.readings } := Parser.run_of_watch hsize hwatch
    rw [hfree, hlimited, hreplay]
    have hwatch : (Pairing.outset w env guard).watch = w := rfl
    rw [Pairing.Explains, hwatch, hstate] at hexplains
    rcases hexplains with ⟨-, f, hf, hanswer⟩ | ⟨hok, hanswer, -⟩
    · rw [hf, hanswer]
      rfl
    · rw [hok, hanswer]
      rfl

end Outset

/-! ## Grammars -/

/-- A run that can be cancelled, or that has a deadline, ends in one of three ways. It
    answers as the same run without limits. Or it is stopped at a checkpoint, because it
    was cancelled or because a reading of the clock reached the deadline. Or its timeout
    is refused before its parser is tried, and then nothing was done but to write down
    that a limit is lowered and to read the clock. Which of them it is, and at which
    checkpoint, is what the watch finds in the events of the run without limits: after it
    was cancelled, the first checkpoint that the run comes to stops it. -/
theorem Grammar.run_limited {g : Grammar} (hg : g.RunsUnder RunOptions.Untimed) {env : Env}
    (hrules : ∀ r b, (env.rules r).body.parser? = some b → b.RunsUnder RunOptions.Untimed)
    {s : State} (hs : s.Untimed) (o : RunOptions) (source : Source) :
    ∃ events : Journal,
      ((g.run o.unlimited source).run env s).2.journal = events ++ s.journal ∧
      events.Checked ∧
      ((g.run o source).run env s).1 =
        (if o.rejects source.size then .error (.sourceTooLarge source.size o.maxSize)
        else do
          let w ← o.watch env.clock s
          let _ ← w.replay events
          ((g.run o.unlimited source).run env s).1) ∧
      (((g.run o source).run env s).1 = ((g.run o.unlimited source).run env s).1 ∨
        ∃ f, ((g.run o source).run env s).1 = .error f ∧
          ((∃ w, o.watch env.clock s = .ok w ∧ w.Objects events f) ∨
            o.Refused ∧ f = .timeoutTooLarge)) ∧
      (o.Refused → o.rejects source.size = false → (g.run o source).run env s =
        (.error .timeoutTooLarge,
          { s with
            journal := o.foreword ++ s.journal
            readings := s.readings + 1 })) ∧
      ∀ w earlier position, o.watch env.clock s = .ok w → w.Reaches events earlier position →
        o.watched = true → s.cancelled = true ∨ .cancel ∈ earlier →
        ((g.run o source).run env s).1 = .error (.cancelled position) := by
  cases hsize : o.rejects source.size with
  | true =>
    have hlimited := g.run_of_rejects hsize env s
    have hfree := g.run_of_rejects (o := o.unlimited) hsize env s
    rw [hlimited, hfree]
    refine ⟨[], rfl, trivial, rfl, .inl rfl, nofun, ?_⟩
    rintro w earlier position - ⟨w', later, -, -, hevents⟩
    cases List.append_eq_nil_iff.1 hevents.symm |>.2
  | false =>
    have hruns : Pairing.TracksRuns (runInner env) := Pairing.runNested_tracks env.rules stackLimit
    have hlinks := Pairing.links_watching hruns env.rules o.allowance
    have hp : Pairing.watching.Parses (g.parser env o.allowance) :=
      g.obeys Pairing.watching_lawful hlinks g.uses_all hg
    simp only [if_neg Bool.false_ne_true]
    cases hwatch : o.watch env.clock s with
    | error f =>
      obtain ⟨hrefused, rfl⟩ := RunOptions.watch_error hwatch
      let w : Watch := ⟨env.clock, false, none, s.cancelled, s.readings, 0⟩
      obtain ⟨events, hjournal, hchecked, -⟩ :=
        Parser.run_watched (w := w) hp rfl rfl hrules hs hsize
      have hrun := g.run_of_refused hrefused hsize env s
      have hanswer := congrArg Prod.fst hrun
      exact ⟨events, hjournal, hchecked, hanswer, .inr ⟨_, hanswer, .inr ⟨hrefused, rfl⟩⟩,
        fun _ _ => hrun, nofun⟩
    | ok w =>
      obtain ⟨d, -, hw⟩ := RunOptions.watch_ok hwatch
      have hclock : w.clock = env.clock := by rw [hw]
      have hruns : w.runs = 0 := by rw [hw]
      have hwatched : w.watched = o.watched := by rw [hw]
      have hcancelled : w.cancelled = s.cancelled := by rw [hw]
      obtain ⟨events, hjournal, hchecked, hanswer⟩ :=
        Parser.run_watched hp hclock hruns hrules hs hsize
      have hanswer : ((g.run o source).run env s).1 = _ := hanswer hwatch
      refine ⟨events, hjournal, hchecked, hanswer, ?_, ?_, ?_⟩
      · cases hreplay : w.replay events with
        | error f =>
          rw [hreplay] at hanswer
          exact .inr ⟨f, hanswer, .inl ⟨w, rfl, Watch.replay_objects hreplay⟩⟩
        | ok w' =>
          rw [hreplay] at hanswer
          exact .inl hanswer
      · exact fun hrefused _ => g.run_of_refused hrefused hsize env s
      · intro _ earlier position heq hreaches hw' hc
        cases heq
        rw [← hwatched] at hw'
        rw [← hcancelled] at hc
        rw [hanswer, Watch.replay_of_cancelled hreaches hw' hc]
        rfl

/-- Letters. The run is cancelled when the second one is tested. -/
def Rules.word : Rules := fun _ => {
  name := "word"
  body := .grammar (.seq
    (.satisfy "letter" { test := fun c => .ok c.isAlpha, trigger := some ⟨0, 2⟩ })
    [.optional (.ref "word")]) }

/-- After the second letter the next delegation stops the run. What may be left out is not
    left out. -/
theorem Grammar.run_limited_word :
    (((Grammar.ref "word").run { watched := true, maxDepth := 5 } #['a', 'b', 'c']).run
      { rules := .word } {}).1 = .error (.cancelled 2) := by
  let env : Env := { rules := .word }
  let o : RunOptions := { watched := true, maxDepth := 5 }
  have hrules : ∀ r b, (env.rules r).body.parser? = some b → b.RunsUnder RunOptions.Untimed := by
    intro r b hb
    cases hb
    exact ⟨trivial, trivial, trivial⟩
  have hg : (Grammar.ref "word").RunsUnder RunOptions.Untimed := trivial
  obtain ⟨events, hjournal, -, hanswer, -⟩ :=
    Grammar.run_limited (s := {}) hg hrules nofun o #['a', 'b', 'c']
  have hevents : events =
      (((Grammar.ref "word").run o.unlimited #['a', 'b', 'c']).run env {}).2.journal := by
    rw [hjournal]
    exact (List.append_nil events).symm
  rw [hanswer, hevents]
  rfl

/-- Two letters. -/
def Grammar.twoLetters : Grammar := .seq (.char 'a') [.char 'b']

/-- A letter that is parsed again. That must not take a second. -/
def Grammar.reread : Grammar :=
  .mapRun (.char 'x') { timeout := some (.measured (.finite false 1)) } (.ref "nested")

/-- Rules with a clock that goes on a long time after the first reading. -/
def Env.leap : Env where
  rules := .nested
  clock n := if n = 0 then 0 else 50

/-- Whether a grammar matched. -/
def isMatch : Except Fault Outcome → Bool
  | .ok (.success _ _) => true
  | _ => false

theorem exists_of_isMatch {r : Except Fault Outcome} (h : isMatch r = true) :
    ∃ v n, r = .ok (.success v n) := by
  unfold isMatch at h
  split at h
  · exact ⟨_, _, rfl⟩
  · cases h

/-- Which timeout stopped an evaluation, and where. -/
def overtime? : Except Fault Outcome → Option (Seconds × Int)
  | .error (.deadline timeout position) => some (timeout, position)
  | _ => none

theorem eq_of_overtime? {r : Except Fault Outcome} {timeout : Seconds} {position : Int}
    (h : overtime? r = some (timeout, position)) : r = .error (.deadline timeout position) := by
  unfold overtime? at h
  split at h
  · cases h
    rfl
  · cases h

/-- A run under limits may end otherwise. A timeout that is no length of time is refused.
    And where a mapping function starts a run with a timeout of its own, the time of that
    run depends on how often the clock was read before. -/
theorem Grammar.run_limited_otherwise :
    ((twoLetters.run .vast #['a', 'b']).run .leap {}).1 = .error .timeoutTooLarge ∧
      (∃ v n, ((twoLetters.run RunOptions.vast.unlimited #['a', 'b']).run .leap {}).1 =
        .ok (.success v n)) ∧
      (∃ v n, ((reread.run { timeout := some (.measured (.finite false 100)) } #['x']).run
        .leap {}).1 = .ok (.success v n)) ∧
      ((reread.run {} #['x']).run .leap {}).1 = .error (.deadline (.finite false 1) 0) := by
  have hsize : RunOptions.vast.rejects #['a', 'b'].size = false := rfl
  have hrefused := twoLetters.run_of_refused RunOptions.vast_refused hsize .leap {}
  -- To compare readings of the clock is to calculate with fractions.
  have hslow : isMatch ((reread.run { timeout := some (.measured (.finite false 100)) } #['x']).run
      .leap {}).1 = true := by decide +kernel
  have hfast : overtime? ((reread.run {} #['x']).run .leap {}).1 = some (.finite false 1, 0) := by
    decide +kernel
  exact ⟨congrArg Prod.fst hrefused, ⟨_, _, rfl⟩, exists_of_isMatch hslow, eq_of_overtime? hfast⟩

end Descent
