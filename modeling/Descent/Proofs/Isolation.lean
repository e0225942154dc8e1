-- SUMMARY: A run does not depend on the scopes around it, and it leaves them as they were.
import Descent.Proofs.DepthLimit
import Descent.Proofs.Discipline
import Descent.Session

/-! # Isolation

The host keeps the runs of a thread on a stack, each with its scope, and the guard of the scope
counts the delegations that are open: a delegation adds one to the counter of the run on top,
unless its limit is reached, and takes one away when it is over, however it ends. Here the
journal drives this machine: `Path` says that the events of a journal lead it from one stack to
another, and what holds at every moment. A run leads back to the stack where it was started,
and nowhere else. On the way its counter is the number of its open delegations, and this is at
most its limit: `Session.isolates`. -/

namespace Descent

/-! ## The stack of runs -/

/-- A run as the host keeps it. -/
structure Frame where
  scope : Scope
  /-- The delegations that are open, the last one first. -/
  delegations : List Rule := []

namespace Frame

/-- A delegation is opened. -/
def enter (f : Frame) (r : Rule) : Frame where
  scope := { f.scope with guard := f.scope.guard.enter }
  delegations := r :: f.delegations

/-- The delegation that was opened last is closed. -/
def leave (f : Frame) : Frame where
  scope := { f.scope with guard := f.scope.guard.leave }
  delegations := f.delegations.tail

/-- The guard counts the open delegations, and there are no more than its limit allows. -/
structure Counts (f : Frame) : Prop where
  depth : f.scope.guard.depth = f.delegations.length
  limit : (f.scope.guard.depth : Int) ≤ max 0 f.scope.guard.limit

variable {f : Frame}

theorem leave_enter (f : Frame) (r : Rule) : (f.enter r).leave = f := by
  unfold enter leave
  simp only [Guard.leave_enter, List.tail_cons]

theorem enter_ne (f : Frame) (r : Rule) : f.enter r ≠ f := by
  intro h
  have hdelegations : r :: f.delegations = f.delegations := congrArg delegations h
  exact List.cons_ne_self _ _ hdelegations

theorem leave_ne {r : Rule} (h : f.delegations.head? = some r) : f.leave ≠ f := by
  intro hleave
  have htail : f.delegations.tail = f.delegations := congrArg delegations hleave
  cases hdelegations : f.delegations with
  | nil =>
    rw [hdelegations] at h
    cases h
  | cons q rest =>
    rw [hdelegations] at htail
    exact List.cons_ne_self _ _ htail.symm

theorem Counts.enter (h : f.Counts) (hfull : f.scope.guard.isFull = false) (r : Rule) :
    (f.enter r).Counts where
  depth := congrArg (· + 1) h.depth
  limit := by
    simp only [Guard.isFull, decide_eq_false_iff_not] at hfull
    simp only [Frame.enter, Guard.enter]
    omega

end Frame

/-- The runs of a thread, the innermost first. -/
abbrev Thread := List Frame

/-- The event neither starts nor ends a run, and neither opens nor closes a delegation. -/
def Event.IsInert : Event → Prop
  | .running _ _ => False
  | .ended => False
  | .opened _ _ _ => False
  | .closed _ => False
  | _ => True

theorem Event.IsPlain.inert {e : Event} (h : e.IsPlain) : e.IsInert := by
  cases e <;> trivial

/-- What an event does to the runs of a thread. A run starts in some scope where nothing is
    open. A delegation is opened by the run on top, unless its guard is full, and only the one
    that was opened last is closed. -/
inductive Event.Moves : Event → Thread → Thread → Prop
  | running {name : String} {size : Nat} {thread : Thread} {scope : Scope} :
      scope.guard.depth = 0 → Moves (.running name size) thread ({ scope := scope } :: thread)
  | ended {f : Frame} {thread : Thread} : Moves .ended (f :: thread) thread
  | opened {r : Rule} {position depth : Nat} {f : Frame} {thread : Thread} :
      f.scope.guard.isFull = false → depth = f.scope.guard.enter.depth →
        Moves (.opened r position depth) (f :: thread) (f.enter r :: thread)
  | closed {r : Rule} {f : Frame} {thread : Thread} : f.delegations.head? = some r →
      Moves (.closed r) (f :: thread) (f.leave :: thread)
  | inert {e : Event} {thread : Thread} : e.IsInert → Moves e thread thread

/-- The events of a journal lead from one thread to another, and at every moment the
    thread is as asked. -/
inductive Path (P : Thread → Prop) (start : Thread) : Journal → Thread → Prop
  | nil : P start → Path P start [] start
  | cons {events : Journal} {thread thread' : Thread} {e : Event} :
    Path P start events thread → e.Moves thread thread' → P thread' →
      Path P start (e :: events) thread'

namespace Path

variable {P Q : Thread → Prop} {start middle stop : Thread} {events later : Journal}

theorem trans (h : Path P start events middle) (hlater : Path P middle later stop) :
    Path P start (later ++ events) stop := by
  induction hlater with
  | nil => exact h
  | cons _ hmoves hthread ih => exact .cons ih hmoves hthread

theorem mono (h : Path P start events stop) (hPQ : ∀ thread, P thread → Q thread) :
    Path Q start events stop := by
  induction h with
  | nil hstart => exact .nil (hPQ _ hstart)
  | cons _ hmoves hthread ih => exact .cons ih hmoves (hPQ _ hthread)

theorem single {e : Event} (hstart : P start) (hmoves : e.Moves start stop) (hstop : P stop) :
    Path P start [e] stop :=
  .cons (.nil hstart) hmoves hstop

end Path

/-- A moment of a run that was started in a thread: all runs since then count their open
    delegations, which their limits allow, and the run itself has the given limit. -/
def Moment (outer : Thread) (limit : Int) (thread : Thread) : Prop :=
  ∃ inner : List Frame, thread = inner ++ outer ∧ (∀ f ∈ inner, f.Counts) ∧
    ∀ f, inner.getLast? = some f → f.scope.guard.limit = limit

namespace Moment

variable {outer : Thread} {limit : Int}

/-- The run has not started, or it is over. -/
theorem outside (outer : Thread) (limit : Int) : Moment outer limit outer :=
  ⟨[], rfl, nofun, nofun⟩

/-- No other run is on top of the run. -/
theorem top {f : Frame} (hf : f.Counts) : Moment outer f.scope.guard.limit (f :: outer) := by
  refine ⟨[f], rfl, ?_, ?_⟩
  · rintro _ hg
    rw [List.mem_singleton.1 hg]
    exact hf
  · rintro _ ⟨⟩
    rfl

/-- A moment of a run inside the run. -/
theorem inside {f : Frame} {thread : Thread} (hf : f.Counts)
    (h : Moment (f :: outer) limit thread) : Moment outer f.scope.guard.limit thread := by
  obtain ⟨inner, rfl, hcounts, -⟩ := h
  refine ⟨inner ++ [f], by simp, ?_, ?_⟩
  · intro g hg
    rcases List.mem_append.1 hg with hg | hg
    · exact hcounts g hg
    · rw [List.mem_singleton.1 hg]
      exact hf
  · intro g hg
    rw [List.getLast?_concat] at hg
    cases hg
    rfl

end Moment

/-! ## Where events lead

Events do not tell in which scope a run starts. This is all that they leave open, and it does
not matter any more when the run is over. -/

section Leads

variable {outer inner inner' thread : Thread} {e : Event}

/-- What changes the thread at the same height, but not below, changes something above. -/
theorem Thread.exists_top (outer stop : Thread) (hlength : inner.length = inner'.length)
    (hheight : (inner ++ outer).length = (stop ++ outer).length)
    (hne : inner ++ outer ≠ stop ++ outer) : ∃ f rest, inner' = f :: rest := by
  cases inner' with
  | nil =>
    simp only [List.length_append, List.length_nil] at hlength hheight
    have hinner : inner = [] := List.eq_nil_of_length_eq_zero hlength
    have hstop : stop = [] := List.eq_nil_of_length_eq_zero (by omega)
    rw [hinner, hstop] at hne
    exact absurd rfl hne
  | cons f rest => exact ⟨f, rest, rfl⟩

/-- A move that leaves the lower part of the thread as it is does so on top of other runs too. -/
theorem Event.Moves.above {stop : Thread} (h : e.Moves (inner ++ outer) (stop ++ outer))
    (hlength : inner.length = inner'.length) (h' : e.Moves (inner' ++ outer) thread) :
    ∃ stop', thread = stop' ++ outer ∧ stop.length = stop'.length := by
  have hbefore : (inner ++ outer).length = inner.length + outer.length := List.length_append
  have hafter : (stop ++ outer).length = stop.length + outer.length := List.length_append
  have htop := Thread.exists_top outer stop hlength
  generalize inner ++ outer = before at h htop hbefore
  generalize stop ++ outer = after at h htop hafter
  cases h with
  | running =>
    rw [List.length_cons] at hafter
    cases h' with
    | running => exact ⟨_ :: inner', rfl, by rw [List.length_cons]; omega⟩
    | inert he => exact he.elim
  | ended =>
    rw [List.length_cons] at hbefore
    cases inner' with
    | nil =>
      rw [List.length_nil] at hlength
      omega
    | cons f rest =>
      rw [List.length_cons] at hlength
      cases h' with
      | ended => exact ⟨rest, rfl, by omega⟩
      | inert he => exact he.elim
  | opened =>
    obtain ⟨f', rest, rfl⟩ := htop rfl fun h => Frame.enter_ne _ _ (List.cons.inj h).1.symm
    rw [List.length_cons] at hlength hbefore hafter
    cases h' with
    | opened => exact ⟨_ :: rest, rfl, by rw [List.length_cons]; omega⟩
    | inert he => exact he.elim
  | closed hhead =>
    obtain ⟨f', rest, rfl⟩ := htop rfl fun h => Frame.leave_ne hhead (List.cons.inj h).1.symm
    rw [List.length_cons] at hlength hbefore hafter
    cases h' with
    | closed => exact ⟨_ :: rest, rfl, by rw [List.length_cons]; omega⟩
    | inert he => exact he.elim
  | inert he =>
    generalize hthread : inner' ++ outer = before' at h'
    cases h' with
    | inert => exact ⟨inner', hthread.symm, by omega⟩
    | running | ended | opened | closed => exact he.elim

/-- If events may lead away from a thread without a change to it, then all that they lead to
    is something on top of it. -/
theorem Path.above {P Q : Thread → Prop} {events : Journal} {stop : Thread}
    (hP : ∀ thread, P thread → ∃ inner : Thread, thread = inner ++ outer)
    (h : Path P outer events stop) (h' : Path Q outer events thread) :
    ∃ inner inner', stop = inner ++ outer ∧ thread = inner' ++ outer ∧
      inner.length = inner'.length := by
  induction h generalizing thread with
  | nil =>
    cases h'
    exact ⟨[], [], rfl, rfl, rfl⟩
  | cons _ hmoves hthread ih =>
    cases h' with
    | cons hpath' hmoves' _ =>
      obtain ⟨inner, inner', rfl, rfl, hlength⟩ := ih hpath'
      obtain ⟨stop, rfl⟩ := hP _ hthread
      obtain ⟨stop', hthread', hlength'⟩ := hmoves.above hlength hmoves'
      exact ⟨stop, stop', rfl, hthread', hlength'⟩

/-- The events of a run lead back to where it was started, and nowhere else. -/
theorem Path.returns {Q : Thread → Prop} {limit : Int} {events : Journal}
    (h : Path (Moment outer limit) outer events outer) (h' : Path Q outer events thread) :
    thread = outer := by
  have hmoment : ∀ t, Moment outer limit t → ∃ inner : Thread, t = inner ++ outer :=
    fun _ ⟨inner, ht, _⟩ => ⟨inner, ht⟩
  obtain ⟨inner, inner', hinner, hinner', hlength⟩ := h.above hmoment h'
  have hnil : inner = [] := List.self_eq_append_left.1 hinner
  rw [hnil] at hlength
  rw [hinner', List.eq_nil_of_length_eq_zero hlength.symm, List.nil_append]

end Leads

/-! ## What an evaluation writes down -/

/-- The journals of a kind may be put together, and they may contain events that do
    nothing to the runs of a thread. -/
structure Journal.Closed (Q : Journal → Prop) : Prop where
  nil : Q []
  append : ∀ {events later : Journal}, Q events → Q later → Q (later ++ events)
  single : ∀ {e : Event}, e.IsInert → Q [e]

/-- The journal has grown by events of a kind. -/
def State.Writes (Q : Journal → Prop) (s t : State) : Prop :=
  ∃ events, t.journal = events ++ s.journal ∧ Q events

theorem Journal.Closed.change {Q : Journal → Prop} (hQ : Journal.Closed Q) :
    Change (State.Writes Q) := by
  have htrans : ∀ {s t u : State}, s.Writes Q t → t.Writes Q u → s.Writes Q u := by
    rintro s t u ⟨events, ht, hevents⟩ ⟨later, hu, hlater⟩
    refine ⟨later ++ events, ?_, hQ.append hevents hlater⟩
    rw [hu, ht, List.append_assoc]
  have hemit : ∀ {e : Event}, e.IsInert → ∀ s : State, s.Writes Q (s.emit e) :=
    fun he s => ⟨[_], rfl, hQ.single he⟩
  exact {
    refl := fun s => ⟨[], rfl, hQ.nil⟩
    trans := htrans
    plain := fun he s => hemit he.inert s
    silent := fun _ hjournal => ⟨[], hjournal, hQ.nil⟩
    settle := by
      intro s t r cell _ h _
      exact htrans (hemit (e := .building r) trivial s) h }

/-- Inside a run with the given guard: whatever is opened is closed again. -/
def Journal.Level (guard : Guard) (events : Journal) : Prop :=
  ∀ (f : Frame) (outer : Thread), f.scope.guard = guard → f.Counts →
    Path (Moment outer guard.limit) (f :: outer) events (f :: outer)

/-- Around a run with the given limit: the thread is the same before and after it. -/
def Journal.Whole (limit : Int) (events : Journal) : Prop :=
  ∀ outer : Thread, Path (Moment outer limit) outer events outer

theorem Journal.level_closed (guard : Guard) : Journal.Closed (Journal.Level guard) where
  nil := by
    rintro f outer rfl hcounts
    exact .nil (.top hcounts)
  append := fun hevents hlater f outer hf hcounts =>
    (hevents f outer hf hcounts).trans (hlater f outer hf hcounts)
  single := by
    rintro e he f outer rfl hcounts
    exact .single (.top hcounts) (.inert he) (.top hcounts)

theorem Journal.whole_closed (limit : Int) : Journal.Closed (Journal.Whole limit) where
  nil := fun _ => .nil (.outside _ _)
  append := fun hevents hlater outer => (hevents outer).trans (hlater outer)
  single := fun he _ => .single (.outside _ _) (.inert he) (.outside _ _)

/-- A run inside a run. -/
theorem Journal.Whole.level {limit : Int} {events : Journal} (h : Journal.Whole limit events)
    (guard : Guard) : Journal.Level guard events := by
  rintro f outer rfl hcounts
  exact (h (f :: outer)).mono fun _ => .inside hcounts

/-- A delegation adds a level while it is open. -/
theorem Journal.Level.delegation {guard : Guard} {events : Journal}
    (h : Journal.Level guard.enter events) (hfull : guard.isFull = false) (r : Rule)
    (position : Nat) :
    Journal.Level guard (.closed r :: (events ++ [.opened r position guard.enter.depth])) := by
  rintro f outer rfl hcounts
  have hentered : (f.enter r).Counts := hcounts.enter hfull r
  have hclosed : (Event.closed r).Moves (f.enter r :: outer) ((f.enter r).leave :: outer) :=
    .closed rfl
  rw [f.leave_enter] at hclosed
  have hbefore : Path (Moment outer f.scope.guard.limit) (f :: outer)
      [.opened r position f.scope.guard.enter.depth] (f.enter r :: outer) :=
    .single (.top hcounts) (.opened hfull rfl) (.top hentered)
  exact .cons (hbefore.trans (h (f.enter r) outer rfl hentered)) hclosed (.top hcounts)

/-- A run is on the stack while it lasts. -/
theorem Journal.Level.run {maxDepth : Int} {events : Journal}
    (h : Journal.Level (.ofRequested maxDepth) events) {scope : Scope}
    (hscope : scope.guard = .ofRequested maxDepth) (name : String) (size : Nat) :
    Journal.Whole (effectiveLimit maxDepth) (.ended :: (events ++ [.running name size])) := by
  intro outer
  let f : Frame := { scope := scope }
  have hdepth : f.scope.guard.depth = 0 := congrArg Guard.depth hscope
  have hlimit : f.scope.guard.limit = effectiveLimit maxDepth := congrArg Guard.limit hscope
  have hcounts : f.Counts := ⟨hdepth, hdepth ▸ Int.le_max_left ..⟩
  have hstarted : Moment outer (effectiveLimit maxDepth) (f :: outer) := hlimit ▸ .top hcounts
  have hbefore : Path (Moment outer (effectiveLimit maxDepth)) outer [.running name size]
      (f :: outer) := .single (.outside _ _) (.running hdepth) hstarted
  exact .cons (hbefore.trans (h f outer hscope hcounts)) .ended (.outside _ _)

namespace Discipline

/-- Computations inside a run with the given guard that close what they open. -/
def level (guard : Guard) : Discipline :=
  .changing (fun env => ∃ scope, env.scope = some scope ∧ scope.guard = guard)
    (State.Writes (Journal.Level guard))

/-- Computations that end the runs that they start; the first one has the given limit. -/
def whole (limit : Int) : Discipline :=
  .changing (fun _ => True) (State.Writes (Journal.Whole limit))

theorem level_change (guard : Guard) : Change (State.Writes (Journal.Level guard)) :=
  (Journal.level_closed guard).change

theorem level_lawful (guard : Guard) : (level guard).Lawful := changing_lawful (level_change guard)

theorem deeper_level {α : Type} {guard : Guard} {x : Eval α} (hx : (level guard.enter).Obeys x)
    (hfull : guard.isFull = false) (r : Rule) (position : Nat) :
    (level guard).Obeys (deeper r position x) := by
  rintro env s ⟨scope, hscope, rfl⟩
  rw [run_deeper hscope, Eval.run_closing]
  obtain ⟨events, hevents, hlevel⟩ := hx
    { env with scope := some { scope with guard := scope.guard.enter } }
    (s.emit (.opened r position scope.guard.enter.depth)) ⟨_, rfl, rfl⟩
  refine ⟨_, ?_, hlevel.delegation hfull r position⟩
  rw [List.cons_append, List.append_assoc]
  exact congrArg (List.cons _) hevents

/-- The runs of grammars leave the thread as it was, wherever they are started. -/
def WholeRuns (runInner : RunGrammar) : Prop :=
  ∀ o (g : Grammar) text, (whole (effectiveLimit o.maxDepth)).Obeys (runInner o g text)

theorem WholeRuns.level {runInner : RunGrammar} (hrun : WholeRuns runInner) (guard : Guard)
    (o : RunOptions) (g : Grammar) (text : String) :
    (level guard).Obeys (runInner o g text) := by
  intro env s _
  obtain ⟨events, hevents, hwhole⟩ := hrun o g text env s trivial
  exact ⟨events, hevents, hwhole.level guard⟩

theorem links_level {runInner : RunGrammar} (hrun : WholeRuns runInner) (rules : Rules)
    {guard : Guard} {n : Nat} (hn : guard.allowance = n) :
    (rules.links runInner n).Obey (level guard) := by
  have hinner := hrun.level
  induction n generalizing guard with
  | zero =>
    refine ⟨fun r c _ => ?_, fun _ o g text _ _ _ => hinner guard o g text⟩
    have hD := level_lawful guard
    refine hD.bind (resolve_changes (level_change guard) (hinner guard) r) fun _ => ?_
    exact hD.bind (hD.checkpoint _) fun _ => refuse_changes (level_change guard) r c.pos
  | succ n ih =>
    refine ⟨fun r c _ => ?_, fun _ o g text _ _ _ => hinner guard o g text⟩
    have hD := level_lawful guard
    have hfull : guard.isFull = false := by
      rw [← Bool.not_eq_true, ← guard.allowance_eq_zero_iff, hn]
      exact Nat.succ_ne_zero n
    have hn' : guard.enter.allowance = n := (Guard.enter_of_allowance hn).1
    refine hD.bind (resolve_changes (level_change guard) (hinner guard) r) fun g => ?_
    refine hD.bind (hD.checkpoint _) fun _ => deeper_level ?_ hfull r c.pos
    exact g.obeys (level_lawful guard.enter) (ih hn') g.uses_all g.runsUnder_all c

/-- The run itself, between its start and its end. -/
theorem started_whole {maxDepth : Int} {scope : Scope} {x : Eval Outcome}
    (hx : (level (.ofRequested maxDepth)).Obeys x) (hscope : scope.guard = .ofRequested maxDepth)
    (name : String) (size : Nat) :
    (whole (effectiveLimit maxDepth)).Obeys (do
      Eval.emit (.running name size)
      Eval.closing .ended (Eval.within (some scope) x)) := by
  intro env s _
  obtain ⟨events, hevents, hlevel⟩ := hx { env with scope := some scope }
    (s.emit (.running name size)) ⟨scope, rfl, hscope⟩
  rw [Eval.run_bind_of_ok (Eval.run_emit _ _ _), Eval.run_closing, Eval.run_within]
  refine ⟨_, ?_, hlevel.run hscope name size⟩
  rw [List.cons_append, List.append_assoc]
  exact congrArg (List.cons _) hevents

theorem run_whole {p : Parser} {o : RunOptions}
    (hp : (level (.ofRequested o.maxDepth)).Parses p) (source : Source) :
    (whole (effectiveLimit o.maxDepth)).Obeys (p.run o source) := by
  have hR := (Journal.whole_closed (effectiveLimit o.maxDepth)).change
  rw [Parser.run_eq]
  split
  · exact fun _ s _ => hR.refl s
  · refine openScope_changes hR fun deadline => ?_
    rw [← Eval.bind_assoc]
    refine bind_changes hR (started_whole (hp _) rfl p.name source.size) fun outcome => ?_
    exact conclude_changes hR p _

theorem runNested_whole (rules : Rules) (runs : Nat) :
    WholeRuns (Grammar.runNested rules.ruleName runs) := by
  induction runs with
  | zero => exact fun o _ _ _ s _ => (Journal.whole_closed _).change.refl s
  | succ n ih =>
    intro o g text
    have hlinks := links_level ih rules (rfl : (Guard.ofRequested o.maxDepth).allowance = _)
    exact run_whole (g.obeys (level_lawful _) hlinks g.uses_all g.runsUnder_all) _

end Discipline

theorem Grammar.run_whole (g : Grammar) (o : RunOptions) (source : Source) (env : Env) (s : State) :
    s.Writes (Journal.Whole (effectiveLimit o.maxDepth)) ((g.run o source).run env s).2 := by
  have hruns : Discipline.WholeRuns (Grammar.runInner env) :=
    Discipline.runNested_whole env.rules stackLimit
  have hlinks := Discipline.links_level hruns env.rules
    (rfl : (Guard.ofRequested o.maxDepth).allowance = _)
  have hp : (Discipline.level (.ofRequested o.maxDepth)).Parses (g.parser env o.allowance) :=
    g.obeys (Discipline.level_lawful _) hlinks g.uses_all g.runsUnder_all
  rw [Grammar.run_run]
  exact Discipline.run_whole hp source env s trivial

/-! ## Runs in a session -/

/-- A run does not look at the scope in which it is started. -/
theorem Parser.run_anywhere (p : Parser) (o : RunOptions) (source : Source) (env : Env)
    (scope : Option Scope) (s : State) :
    (p.run o source).run { env with scope := scope } s = (p.run o source).run env s := by
  have hopen : (openScope o.maxDepth o.timeout o.watched).run { env with scope := scope } s =
      (openScope o.maxDepth o.timeout o.watched).run env s := by
    unfold openScope noteLowered
    cases StackBudget.lowered? {} o.maxDepth <;> cases o.timeout <;> rfl
  have hconclude : ∀ (outcome : Outcome) (t : State),
      (p.conclude outcome).run { env with scope := scope } t = (p.conclude outcome).run env t := by
    intro outcome t
    cases outcome <;> rfl
  rw [Parser.run_eq]
  split
  · rfl
  · simp only [Eval.run_bind, hopen, hconclude, Eval.run_emit, Eval.run_closing, Eval.run_within]

theorem Grammar.run_anywhere (g : Grammar) (o : RunOptions) (source : Source) (env : Env)
    (scope : Option Scope) (s : State) :
    (g.run o source).run { env with scope := scope } s = (g.run o source).run env s := by
  have hparser : g.parser { env with scope := scope } o.allowance = g.parser env o.allowance := rfl
  rw [Grammar.run_run, Grammar.run_run, hparser, Parser.run_anywhere]

theorem Grammar.runNested_anywhere (ruleName : Rule → String) (runs : Nat) (o : RunOptions)
    (g : Grammar) (text : String) (env : Env) (scope : Option Scope) (s : State) :
    (runNested ruleName runs o g text).run { env with scope := scope } s =
      (runNested ruleName runs o g text).run env s := by
  cases runs with
  | zero => rfl
  | succ n => exact Parser.run_anywhere _ o _ env scope s

namespace Session

/-- The scopes that are open, the active one first. -/
def scopes (s : Session) : List Scope := s.contexts.map (·.scope)

/-- A run is isolated from the scopes that are open in a session, where it is started. -/
structure Isolates (s : Session) (limit : Int) (x : Eval Outcome) : Prop where
  /-- It does the same where no scope is open. -/
  alone : (s.perform x).1 = ({ s with contexts := [] }.perform x).1 ∧
    (s.perform x).2.state = ({ s with contexts := [] }.perform x).2.state
  /-- However it ends, the events that it writes down lead every thread back to where it
      was, and at every moment the runs since its start count their open delegations within
      their limits, and the run itself has the given limit. -/
  moments : ∃ events, (s.perform x).2.state.journal = events ++ s.state.journal ∧
    ∀ thread : Thread, Path (Moment thread limit) thread events thread
  /-- However it ends, these events lead the open scopes nowhere else, and where they lead is
      what is open afterwards. -/
  contexts : ∀ (events : Journal) (thread thread' : Thread),
    (s.perform x).2.state.journal = events ++ s.state.journal →
      thread.map Frame.scope = s.scopes → Path (fun _ => True) thread events thread' →
        thread' = thread ∧ (s.perform x).2.scopes = thread'.map Frame.scope

theorem Isolates.of_whole {s : Session} {limit : Int} {x : Eval Outcome}
    (hanywhere : ∀ (env : Env) (scope : Option Scope) (t : State),
      x.run { env with scope := scope } t = x.run env t)
    (hwhole : ∀ (env : Env) (t : State), t.Writes (Journal.Whole limit) (x.run env t).2) :
    s.Isolates limit x where
  alone := by
    have hrun : x.run s.env s.state = x.run { s with contexts := [] }.env s.state :=
      (hanywhere s.env none s.state).symm
    simp only [perform, hrun, and_self]
  moments := hwhole s.env s.state
  contexts := by
    intro events thread thread' hevents hscopes hpath
    obtain ⟨written, hwritten, hleads⟩ := hwhole s.env s.state
    have hsame : written = events := List.append_cancel_right (hwritten.symm.trans hevents)
    subst hsame
    have hreturns : thread' = thread := (hleads thread).returns hpath
    subst hreturns
    exact ⟨rfl, hscopes.symm⟩

/-- Runs are isolated, also those that mapping functions and builders start. -/
theorem isolates (s : Session) (g : Grammar) (o : RunOptions) :
    (∀ source, s.Isolates (effectiveLimit o.maxDepth) (g.run o source)) ∧
      ∀ runs text, s.Isolates (effectiveLimit o.maxDepth)
        (Grammar.runNested s.env.ruleName runs o g text) := by
  refine ⟨fun source => ?_, fun runs text => ?_⟩
  · apply Isolates.of_whole
    · exact g.run_anywhere o source
    · exact g.run_whole o source
  · apply Isolates.of_whole
    · exact Grammar.runNested_anywhere s.env.ruleName runs o g text
    · exact fun env t => Discipline.runNested_whole s.rules runs o g text env t trivial

end Session

end Descent
