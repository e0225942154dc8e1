-- SUMMARY: A builder is started at most once, and what it makes of its rule stays.
import Descent.Proofs.Discipline

/-! # The life of a rule

The builder of a rule may run rules itself, its own among them, and so it can be
under way while other builders are. Whatever it does, an evaluation that is over
has left every rule as it was or has settled a rule that was not built before, and
it has started as many builders as it has settled rules: `State.Advanced`. An
evaluation that is not over has started some builders that are still running. The
states in which this can be are `Underway`, and `Underway.lifecycle` says what the
uses of a rule do there, then and later. -/

namespace Descent

/-! ## Advancing -/

namespace Cell

/-- How often the builder of the rule was started. -/
def starts : Cell → Nat
  | .unbuilt => 0
  | _ => 1

theorem IsSettled.starts {cell : Cell} (h : cell.IsSettled) : cell.starts = 1 := by
  cases cell with
  | unbuilt => exact h.elim
  | building | built | failed => rfl

/-- What is known about a rule stays the same, or a rule that was not built is
    built or broken. -/
inductive Moves : Cell → Cell → Prop
  | same (cell : Cell) : Moves cell cell
  | settle {cell : Cell} : cell.IsSettled → Moves .unbuilt cell

theorem Moves.eq {c d : Cell} (h : c.Moves d) (hc : c ≠ .unbuilt) : d = c := by
  cases h with
  | same => rfl
  | settle => exact absurd rfl hc

theorem Moves.trans {c d e : Cell} (hcd : c.Moves d) (hde : d.Moves e) : c.Moves e := by
  cases hcd with
  | same => exact hde
  | settle hd =>
    have hne : d ≠ .unbuilt := by
      rintro rfl
      exact hd
    rw [hde.eq hne]
    exact .settle hd

/-- No builder is found running that was not running before. -/
theorem Moves.building_iff {c d : Cell} (h : c.Moves d) : d = .building ↔ c = .building := by
  cases h with
  | same => exact Iff.rfl
  | settle hd =>
    refine ⟨?_, nofun⟩
    rintro rfl
    exact hd.elim

end Cell

/-- Rules have been settled, and as many builders have been started. -/
structure State.Advanced (s t : State) : Prop where
  cells : ∀ r, (s.cells r).Moves (t.cells r)
  builds : ∀ r, t.journal.builds r + (s.cells r).starts = s.journal.builds r + (t.cells r).starts

namespace State

theorem builds_emit {e : Event} {r : Rule} (he : e ≠ .building r) (s : State) :
    (s.emit e).journal.builds r = s.journal.builds r :=
  List.count_cons_of_ne he

theorem builds_starting (s : State) (r : Rule) :
    (s.starting r).journal.builds r = s.journal.builds r + 1 :=
  List.count_cons_self

theorem cells_setCell_self (s : State) (r : Rule) (cell : Cell) : (s.setCell r cell).cells r = cell :=
  if_pos rfl

theorem cells_setCell_of_ne (s : State) {q r : Rule} (h : q ≠ r) (cell : Cell) :
    (s.setCell r cell).cells q = s.cells q :=
  if_neg h

/-- Only the rule whose builder is started changes. -/
theorem starting_of_ne (s : State) {q r : Rule} (h : q ≠ r) :
    (s.starting r).cells q = s.cells q ∧
      (s.starting r).journal.builds q = s.journal.builds q := by
  refine ⟨cells_setCell_of_ne s h _, builds_emit ?_ _⟩
  rintro ⟨⟩
  exact h rfl

theorem cells_starting_self (s : State) (r : Rule) : (s.starting r).cells r = .building :=
  cells_setCell_self s r _

variable {s t u : State}

/-- Where the cells and the starts of builders are the same, nothing has advanced. -/
theorem Advanced.of_eq (hcells : t.cells = s.cells)
    (hbuilds : ∀ r, t.journal.builds r = s.journal.builds r) : s.Advanced t where
  cells := fun r => hcells ▸ .same (s.cells r)
  builds := fun r => by rw [hcells, hbuilds r]

theorem Advanced.trans (hst : s.Advanced t) (htu : t.Advanced u) : s.Advanced u where
  cells := fun r => (hst.cells r).trans (htu.cells r)
  builds := fun r => by
    have h₁ := hst.builds r
    have h₂ := htu.builds r
    omega

/-- A builder is over: its rule is settled, and it was started once. -/
theorem Advanced.settle {r : Rule} {cell : Cell} (hr : s.cells r = .unbuilt)
    (h : (s.starting r).Advanced t) (hcell : cell.IsSettled) :
    s.Advanced (t.setCell r cell) := by
  have hbuilding : t.cells r = .building := by
    rw [(h.cells r).building_iff]
    exact cells_starting_self s r
  refine ⟨fun q => ?_, fun q => ?_⟩
  · by_cases hq : q = r
    · subst hq
      rw [hr, cells_setCell_self]
      exact .settle hcell
    · have hmoves := h.cells q
      rw [(s.starting_of_ne hq).1] at hmoves
      rwa [cells_setCell_of_ne t hq]
  · have hbuilds := h.builds q
    change t.journal.builds q + _ = _
    by_cases hq : q = r
    · subst hq
      rw [cells_starting_self, hbuilding, builds_starting] at hbuilds
      rw [hr, cells_setCell_self, hcell.starts]
      simp only [Cell.starts] at hbuilds ⊢
      omega
    · rw [(s.starting_of_ne hq).1, (s.starting_of_ne hq).2] at hbuilds
      rwa [cells_setCell_of_ne t hq]

theorem advanced_emit {e : Event} (he : ∀ r, e ≠ .building r) (s : State) : s.Advanced (s.emit e) :=
  .of_eq rfl fun r => builds_emit (he r) s

theorem advanced_change : Change Advanced where
  refl := fun _ => .of_eq rfl fun _ => rfl
  trans := .trans
  plain := by
    intro e he s
    apply advanced_emit
    rintro r rfl
    exact he
  silent := fun hcells hjournal => .of_eq hcells fun _ => by rw [hjournal]
  settle := .settle

end State

/-! ## Evaluations advance -/

namespace Discipline

/-- Computations after which rules have been settled, and as many builders have
    been started. -/
def advancing : Discipline := .changing (fun _ => True) State.Advanced

theorem advancing_lawful : advancing.Lawful := changing_lawful State.advanced_change

theorem emit_advances {e : Event} (he : ∀ r, e ≠ .building r) : advancing.Obeys (Eval.emit e) :=
  fun _ s _ => State.advanced_emit he s

theorem closing_advances {α : Type} {x : Eval α} (hx : advancing.Obeys x) {e : Event}
    (he : ∀ r, e ≠ .building r) (scope : Option Scope) :
    advancing.Obeys (Eval.closing e (Eval.within scope x)) :=
  fun _ s _ => (hx _ s trivial).trans (State.advanced_emit he _)

theorem deeper_advances {α : Type} {x : Eval α} (hx : advancing.Obeys x) (r : Rule)
    (position : Nat) : advancing.Obeys (deeper r position x) := by
  refine advancing_lawful.bind (fun _ s _ => State.advanced_change.refl s) fun env => ?_
  cases env.scope with
  | none => exact hx
  | some scope =>
    exact advancing_lawful.bind (emit_advances (by simp)) fun _ => closing_advances hx (by simp) _

/-- A delegation begins with its rule. -/
theorem delegate_split {runInner : RunGrammar}
    (hrun : ∀ o g text, advancing.Obeys (runInner o g text)) (ruleName : Rule → String)
    (allowance : Nat) (r : Rule) (c : Cursor) :
    ∃ next : Grammar → Eval Outcome, (∀ g, advancing.Obeys (next g)) ∧
      delegate ruleName runInner allowance r c = resolve runInner r >>= next := by
  induction allowance generalizing r c with
  | zero =>
    refine ⟨_, fun _ => ?_, rfl⟩
    refine advancing_lawful.bind (advancing_lawful.checkpoint _) fun _ => ?_
    exact refuse_changes State.advanced_change r c.pos
  | succ n ih =>
    have hdelegate : ∀ q c, advancing.Obeys (delegate ruleName runInner n q c) := by
      intro q c
      obtain ⟨next, hnext, heq⟩ := ih q c
      rw [heq]
      exact advancing_lawful.bind (resolve_changes State.advanced_change hrun q) hnext
    refine ⟨_, fun g => ?_, rfl⟩
    refine advancing_lawful.bind (advancing_lawful.checkpoint _) fun _ => deeper_advances ?_ _ _
    have hlinks : Links.Obey advancing ⟨ruleName, delegate ruleName runInner n, runInner⟩ :=
      ⟨fun q c _ => hdelegate q c, fun _ o g text _ _ _ => hrun o g text⟩
    exact g.obeys advancing_lawful hlinks g.uses_all g.runsUnder_all c

theorem delegate_advances {runInner : RunGrammar}
    (hrun : ∀ o g text, advancing.Obeys (runInner o g text)) (ruleName : Rule → String)
    (allowance : Nat) (r : Rule) (c : Cursor) :
    advancing.Obeys (delegate ruleName runInner allowance r c) := by
  obtain ⟨next, hnext, heq⟩ := delegate_split hrun ruleName allowance r c
  rw [heq]
  exact advancing_lawful.bind (resolve_changes State.advanced_change hrun r) hnext

theorem run_advances {p : Parser} (hp : advancing.Parses p) (o : RunOptions) (source : Source) :
    advancing.Obeys (p.run o source) := by
  rw [Parser.run_eq]
  split
  · exact advancing_lawful.raise _
  · refine openScope_changes State.advanced_change fun deadline => ?_
    refine advancing_lawful.bind (emit_advances (by simp)) fun _ => ?_
    refine advancing_lawful.bind (closing_advances (hp _) (by simp) _) fun outcome => ?_
    exact conclude_changes State.advanced_change p _

theorem runNested_advances (ruleName : Rule → String) (runs : Nat) (o : RunOptions) (g : Grammar)
    (text : String) : advancing.Obeys (Grammar.runNested ruleName runs o g text) := by
  induction runs generalizing o g text with
  | zero => exact advancing_lawful.raise _
  | succ n ih =>
    let inner := Grammar.runNested ruleName n
    have hlinks : Links.Obey advancing ⟨ruleName, delegate ruleName inner o.allowance, inner⟩ :=
      ⟨fun r c _ => delegate_advances ih ruleName o.allowance r c,
        fun _ o g text _ _ _ => ih o g text⟩
    exact run_advances (g.obeys advancing_lawful hlinks g.uses_all g.runsUnder_all) o _

end Discipline

/-! ## Uses of a rule -/

/-- What is known about a rule after it was asked for is what the use got. -/
theorem resolve_leaves (runInner : RunGrammar) (r : Rule) (env : Env) (s : State) :
    ∃ a t, (resolve runInner r).run env s = (a, t) ∧
      (t.cells r).answer? (env.ruleName r) = some a := by
  cases hanswer : (s.cells r).answer? (env.ruleName r) with
  | some a => exact ⟨a, s, run_resolve_of_answer hanswer, hanswer⟩
  | none =>
    obtain ⟨b, t, e, a, -, -, ha, hresolve⟩ :=
      run_resolve_of_unbuilt runInner env (Cell.answer?_eq_none_iff.1 hanswer)
    refine ⟨a, _, hresolve, ?_⟩
    rw [State.cells_setCell_self]
    exact ha

/-- What is done with a rule. -/
inductive RuleUse
  /-- Its parser is asked for. -/
  | resolve
  /-- It is tried at a cursor. -/
  | delegate (c : Cursor)
  /-- It is asked whether the parser is there. -/
  | isBuilt

/-- What a use of a rule answers. -/
inductive Answer
  | parser (g : Grammar)
  | outcome (o : Outcome)
  | built (b : Bool)

/-- A use of a rule. The uses by several threads come one after the other, each of them
    inside the scope of its own thread. -/
structure Visit where
  rule : Rule
  use : RuleUse
  /-- The scope that is active where the rule is used. -/
  scope : Option Scope := none
  /-- How many runs can be started inside one another. -/
  runs : Nat := stackLimit

namespace Visit

/-- The use of the rule as a computation. -/
def eval (v : Visit) : Eval Answer := do
  let env ← Eval.ask
  let runInner := Grammar.runNested env.ruleName v.runs
  match v.use with
  | .resolve => return .parser (← resolve runInner v.rule)
  | .delegate c => return .outcome (← delegate env.ruleName runInner env.allowance v.rule c)
  | .isBuilt => return .built ((← Eval.get).cells v.rule).isBuilt

/-- Uses the rule in a state. -/
def run (v : Visit) (rules : Rules) (clock : Nat → Rat) (s : State) :
    Except Fault Answer × State :=
  v.eval.run { rules := rules, scope := v.scope, clock := clock } s

/-- The parser of the rule is needed. -/
def NeedsParser (v : Visit) : Prop := v.use ≠ .isBuilt

variable {v : Visit} {rules : Rules} {clock : Nat → Rat}

/-- A use that needs the parser begins with asking for it. -/
theorem eval_split (hv : v.NeedsParser) (env : Env) :
    ∃ next : Grammar → Eval Answer, (∀ g, Discipline.advancing.Obeys (next g)) ∧
      (∀ s, v.eval.run env s =
        (resolve (Grammar.runNested env.ruleName v.runs) v.rule >>= next).run env s) ∧
      (v.use = .resolve → next = fun g => pure (.parser g)) := by
  have hrun := Discipline.runNested_advances env.ruleName v.runs
  unfold eval
  cases huse : v.use with
  | isBuilt => exact absurd huse hv
  | resolve =>
    exact ⟨_, fun g => Discipline.advancing_lawful.pure _, fun _ => rfl, fun _ => rfl⟩
  | delegate c =>
    obtain ⟨next, hnext, heq⟩ := Discipline.delegate_split hrun env.ruleName env.allowance v.rule c
    refine ⟨fun g => next g >>= fun o => pure (.outcome o), fun g => ?_, fun s => ?_, nofun⟩
    · exact Discipline.advancing_lawful.bind (hnext g) fun _ => Discipline.advancing_lawful.pure _
    · rw [← Eval.bind_assoc (resolve _ _), ← heq]
      rfl

theorem run_isBuilt (hv : v.use = .isBuilt) (s : State) :
    v.run rules clock s = (.ok (.built (s.cells v.rule).isBuilt), s) := by
  unfold run eval
  rw [hv]
  rfl

theorem run_advanced (v : Visit) (rules : Rules) (clock : Nat → Rat) (s : State) :
    s.Advanced (v.run rules clock s).2 := by
  by_cases hv : v.use = .isBuilt
  · rw [run_isBuilt hv]
    exact State.advanced_change.refl s
  · obtain ⟨next, hnext, heq, -⟩ := eval_split hv { rules := rules, scope := v.scope, clock := clock }
    have hresolve := Discipline.resolve_changes State.advanced_change
      (Discipline.runNested_advances rules.ruleName v.runs) v.rule
    unfold run
    rw [heq]
    exact Discipline.advancing_lawful.bind hresolve hnext _ s trivial

/-- A parser that is there is handed out. -/
theorem run_of_built (hv : v.use = .resolve) {s : State} {g : Grammar}
    (h : s.cells v.rule = .built g) : v.run rules clock s = (.ok (.parser g), s) := by
  let env : Env := { rules := rules, scope := v.scope, clock := clock }
  have hneeds : v.NeedsParser := by simp [NeedsParser, hv]
  obtain ⟨next, -, heq, hpure⟩ := eval_split hneeds env
  have hanswer : (s.cells v.rule).answer? (env.ruleName v.rule) = some (.ok g) := by
    rw [h]
    rfl
  have hresolve : (resolve (Grammar.runNested env.ruleName v.runs) v.rule).run env s = (.ok g, s) :=
    run_resolve_of_answer hanswer
  have hrun : v.run rules clock s = _ := heq s
  rw [hrun, Eval.run_bind_of_ok hresolve, hpure hv]
  rfl

/-- A rule of which a use gets a fault at once. -/
theorem run_of_fault (hv : v.NeedsParser) {s : State} {f : Fault}
    (h : (s.cells v.rule).answer? (rules.ruleName v.rule) = some (.error f)) :
    v.run rules clock s = (.error f, s) := by
  obtain ⟨next, -, heq, -⟩ := eval_split hv { rules := rules, scope := v.scope, clock := clock }
  unfold run
  rw [heq]
  exact Eval.run_bind_of_error (run_resolve_of_answer h)

/-- What is known about a rule after a use of it is what the use got. -/
theorem run_leaves (hv : v.NeedsParser) (s : State) :
    ∃ a, ((v.run rules clock s).2.cells v.rule).answer? (rules.ruleName v.rule) = some a ∧
      (∀ f, a = .error f → (v.run rules clock s).1 = .error f) ∧
      ∀ g, a = .ok g → v.use = .resolve → (v.run rules clock s).1 = .ok (.parser g) := by
  let env : Env := { rules := rules, scope := v.scope, clock := clock }
  obtain ⟨next, hnext, heq, hpure⟩ := eval_split hv env
  obtain ⟨a, t, hresolve, ha⟩ :=
    resolve_leaves (Grammar.runNested env.ruleName v.runs) v.rule env s
  have hrun : v.run rules clock s = _ := heq s
  refine ⟨a, ?_⟩
  cases a with
  | error f =>
    rw [hrun, Eval.run_bind_of_error hresolve]
    refine ⟨ha, fun f' hf => ?_, nofun⟩
    cases hf
    rfl
  | ok g =>
    rw [hrun, Eval.run_bind_of_ok hresolve]
    refine ⟨?_, nofun, fun g' hg huse => ?_⟩
    · have hmoves := (hnext g env t trivial).cells v.rule
      have hne : t.cells v.rule ≠ .unbuilt := by
        intro h
        simp [h, Cell.answer?] at ha
      rwa [hmoves.eq hne]
    · cases hg
      rw [hpure huse]
      rfl

/-- The first use starts the builder, and the rule is what the builder makes of it. -/
theorem run_begins (hv : v.NeedsParser) {s : State} (hs : s.cells v.rule = .unbuilt) :
    ∃ b t, ((rules v.rule).body.build (Grammar.runNested rules.ruleName v.runs) v.rule).run
        { rules := rules, scope := v.scope, clock := clock } (s.starting v.rule) = (b, t) ∧
      (v.run rules clock s).2.cells v.rule = .ofBuilder (rules.ruleName v.rule) b := by
  let env : Env := { rules := rules, scope := v.scope, clock := clock }
  obtain ⟨next, hnext, heq, -⟩ := eval_split hv env
  obtain ⟨b, t, e, a, hb, -, -, hresolve⟩ :=
    run_resolve_of_unbuilt (Grammar.runNested env.ruleName v.runs) env hs
  refine ⟨b, t, hb, ?_⟩
  have hrun : v.run rules clock s = _ := heq s
  let settled : State := (t.emit e).setCell v.rule (.ofBuilder (env.ruleName v.rule) b)
  have hcell : settled.cells v.rule = .ofBuilder (env.ruleName v.rule) b :=
    State.cells_setCell_self _ _ _
  cases a with
  | error f =>
    rw [hrun, Eval.run_bind_of_error hresolve]
    exact hcell
  | ok g =>
    rw [hrun, Eval.run_bind_of_ok hresolve]
    have hmoves := (hnext g env settled trivial).cells v.rule
    rw [hcell] at hmoves
    apply hmoves.eq
    intro hunbuilt
    have hsettled := Cell.isSettled_ofBuilder (env.ruleName v.rule) b
    rw [hunbuilt] at hsettled
    exact hsettled

/-- A use settles the rule, unless its builder is running. -/
theorem run_settles (hv : v.NeedsParser) {s : State} (hs : s.cells v.rule ≠ .building) :
    (∃ g, (v.run rules clock s).2.cells v.rule = .built g ∧
      (v.use = .resolve → (v.run rules clock s).1 = .ok (.parser g))) ∨
    ∃ d cause, (v.run rules clock s).2.cells v.rule = .failed d cause ∧
      (v.run rules clock s).1 = .error (.grammar d cause) := by
  obtain ⟨a, ha, herror, hok⟩ := v.run_leaves hv s
  have hmoves := (v.run_advanced rules clock s).cells v.rule
  cases hcell : (v.run rules clock s).2.cells v.rule with
  | unbuilt =>
    rw [hcell] at ha
    cases ha
  | building => exact absurd (hmoves.building_iff.1 hcell) hs
  | built g =>
    rw [hcell] at ha
    cases ha
    exact .inl ⟨g, rfl, hok g rfl⟩
  | failed d cause =>
    rw [hcell] at ha
    cases ha
    exact .inr ⟨d, cause, rfl, herror _ rfl⟩

end Visit

/-- The state after several uses of rules. -/
def State.after (rules : Rules) (clock : Nat → Rat) (visits : List Visit) (s : State) : State :=
  visits.foldl (fun s v => (v.run rules clock s).2) s

theorem State.Advanced.after (rules : Rules) (clock : Nat → Rat) (visits : List Visit)
    (s : State) : s.Advanced (s.after rules clock visits) := by
  induction visits generalizing s with
  | nil => exact State.advanced_change.refl s
  | cons v vs ih => exact (v.run_advanced rules clock s).trans (ih _)

/-! ## Builders under way -/

/-- The states that are met, and the rules whose builders are running there, the
    innermost first. What a builder has done so far, and what else goes on around
    it, are steps of the other kinds. -/
inductive Underway (rules : Rules) (clock : Nat → Rat) : List Rule → State → Prop
  /-- Nothing was done before. -/
  | fresh : Underway rules clock [] {}
  /-- A rule is used. -/
  | visit {running : List Rule} {s : State} (h : Underway rules clock running s) (v : Visit) :
      Underway rules clock running (v.run rules clock s).2
  /-- A grammar is run, by a builder or by somebody else. -/
  | run {running : List Rule} {s : State} (h : Underway rules clock running s) (runs : Nat)
      (scope : Option Scope) (o : RunOptions) (g : Grammar) (text : String) :
      Underway rules clock running
        ((Grammar.runNested rules.ruleName runs o g text).run ⟨rules, scope, clock⟩ s).2
  /-- The builder of a rule is started, and it is not over yet. -/
  | start {running : List Rule} {s : State} {r : Rule} (h : Underway rules clock running s)
      (hr : s.cells r = .unbuilt) : Underway rules clock (r :: running) (s.starting r)
  /-- Something happens that has nothing to do with rules. -/
  | other {running : List Rule} {s t : State} (h : Underway rules clock running s)
      (hcells : t.cells = s.cells) (hbuilds : ∀ r, t.journal.builds r = s.journal.builds r) :
      Underway rules clock running t

namespace Underway

variable {rules : Rules} {clock : Nat → Rat} {running : List Rule} {s t : State}

/-- The journal tells how often a builder was started, and the rules that are marked
    are those whose builders are running. -/
def Consistent (running : List Rule) (s : State) : Prop :=
  ∀ r, s.journal.builds r = (s.cells r).starts ∧ (s.cells r = .building ↔ r ∈ running)

theorem Consistent.advance (h : Consistent running s) (hst : s.Advanced t) :
    Consistent running t := by
  intro r
  obtain ⟨hbuilds, hbuilding⟩ := h r
  have hadvance := hst.builds r
  refine ⟨by omega, ?_⟩
  rw [(hst.cells r).building_iff, hbuilding]

theorem Consistent.start {r : Rule} (h : Consistent running s) (hr : s.cells r = .unbuilt) :
    Consistent (r :: running) (s.starting r) := by
  intro q
  obtain ⟨hbuilds, hbuilding⟩ := h q
  by_cases hq : q = r
  · subst hq
    rw [State.builds_starting, State.cells_starting_self, hbuilds, hr]
    simp [Cell.starts]
  · rw [(s.starting_of_ne hq).1, (s.starting_of_ne hq).2]
    simp [hbuilds, hbuilding, hq]

theorem consistent (h : Underway rules clock running s) : Consistent running s := by
  induction h with
  | fresh => exact fun r => ⟨rfl, nofun, nofun⟩
  | visit _ v ih => exact ih.advance (v.run_advanced rules clock _)
  | run _ runs scope o g text ih =>
    exact ih.advance (Discipline.runNested_advances _ runs o g text _ _ trivial)
  | start _ hr ih => exact ih.start hr
  | other _ hcells hbuilds ih => exact ih.advance (.of_eq hcells hbuilds)

end Underway

/-- A run of a rule whose builder is running is stopped, and it leaves all rules as
    they are. -/
theorem run_ref_building {env : Env} {s : State} {r : Rule} (hr : s.cells r = .building)
    {source : String} (hsize : RunOptions.rejects {} (Source.ofString source).size = false)
    (runs : Nat) :
    (Grammar.runNested env.ruleName (runs + 1) {} (.ref r) source).run env s =
      (.error (.grammar (.reentrantBuild (env.ruleName r)) none),
        (s.emit (.running (env.ruleName r) (Source.ofString source).size)).emit .ended) := by
  let scope : Scope := { guard := .ofRequested defaultMaxDepth }
  let s₁ := s.emit (.running (env.ruleName r) (Source.ofString source).size)
  obtain ⟨next, -, hsplit⟩ := Discipline.delegate_split
    (Discipline.runNested_advances env.ruleName runs) env.ruleName (RunOptions.allowance {}) r
    (.start (Source.ofString source))
  have hanswer : (s₁.cells r).answer? (env.ruleName r) =
      some (.error (.grammar (.reentrantBuild (env.ruleName r)) none)) := by
    change (s.cells r).answer? _ = _
    rw [hr]
    rfl
  have hdelegate : (delegate env.ruleName (Grammar.runNested env.ruleName runs)
      (RunOptions.allowance {}) r (.start (Source.ofString source))).run
        { env with scope := some scope } s₁ =
      (.error (.grammar (.reentrantBuild (env.ruleName r)) none), s₁) := by
    rw [hsplit]
    exact Eval.run_bind_of_error (run_resolve_of_answer hanswer)
  have hopen : (openScope defaultMaxDepth none false).run env s = (.ok scope, s) := by rfl
  simp only [Grammar.runNested, Grammar.denote, Parser.run_eq, hsize, Bool.false_eq_true, if_false]
  rw [Eval.run_bind_of_ok hopen, Eval.run_bind_of_ok (Eval.run_emit _ _ _)]
  apply Eval.run_bind_of_error
  rw [Eval.run_closing, Eval.run_within, hdelegate]

/-- What the uses of a rule do after a state `s`, while some builders are running: in
    a state `t` that is met later, when the same builders are running. -/
structure Lifecycle (rules : Rules) (clock : Nat → Rat) (running : List Rule) (r : Rule)
    (s t : State) : Prop where
  /-- The builder is started at most once. -/
  once : t.journal.builds r ≤ 1
  /-- The rule stays as it is, or it goes from not built to built or to failed. -/
  moves : (s.cells r).Moves (t.cells r)
  /-- The rule is marked as building just while its builder is running. -/
  marked : t.cells r = .building ↔ r ∈ running
  /-- Whether the parser is there can be asked at any time. -/
  asked : ∀ v : Visit, v.rule = r → v.use = .isBuilt →
    v.run rules clock t = (.ok (.built (t.cells r).isBuilt), t)
  /-- The first use starts the builder, and the rule is what the builder makes of it. -/
  begins : t.cells r = .unbuilt → ∀ v : Visit, v.rule = r → v.NeedsParser →
    ∃ b u, ((rules r).body.build (Grammar.runNested rules.ruleName v.runs) r).run
        { rules := rules, scope := v.scope, clock := clock } (t.starting r) = (b, u) ∧
      (v.run rules clock t).2.cells r = .ofBuilder (rules.ruleName r) b
  /-- A use settles the rule, the first use too, and it gets what the rule is then. -/
  settles : r ∉ running → ∀ v : Visit, v.rule = r → v.NeedsParser →
    (∃ g, (v.run rules clock t).2.cells r = .built g ∧
      (v.use = .resolve → (v.run rules clock t).1 = .ok (.parser g))) ∨
    ∃ d cause, (v.run rules clock t).2.cells r = .failed d cause ∧
      (v.run rules clock t).1 = .error (.grammar d cause)
  /-- Once there is a parser, it is what the rule is resolved to. -/
  stays_built : ∀ g, s.cells r = .built g → ∀ v : Visit, v.rule = r → v.use = .resolve →
    v.run rules clock t = (.ok (.parser g), t)
  /-- Once the rule has failed, all uses fail in the same way. -/
  stays_failed : ∀ d cause, s.cells r = .failed d cause →
    ∀ v : Visit, v.rule = r → v.NeedsParser → v.run rules clock t = (.error (.grammar d cause), t)
  /-- While its builder is running, a rule cannot be used. -/
  reentrant : r ∈ running → ∀ v : Visit, v.rule = r → v.NeedsParser →
    ∃ d, d.code = .grammar .reentrantBuild ∧ v.run rules clock t = (.error (.grammar d none), t)
  /-- A builder that runs such a rule all the same, and catches the error, goes on as if it
      had not; only the journal shows it. -/
  caught : r ∈ running → ∀ (env : Env) (runs : Nat) (q : Rule) (source : String) (next : Body),
    env.rules = rules → RunOptions.rejects {} (Source.ofString source).size = false →
    ∃ noted : Journal, (∀ q', noted.builds q' = 0) ∧
      ((Body.tryRun r source next).build (Grammar.runNested env.ruleName (runs + 1)) q).run env t =
        (next.build (Grammar.runNested env.ruleName (runs + 1)) q).run env
          { t with journal := noted ++ t.journal }

/-- A builder that catches the error of its own rule goes on. -/
theorem build_tryRun_building {env : Env} {s : State} {r : Rule} (hr : s.cells r = .building)
    {source : String} (hsize : RunOptions.rejects {} (Source.ofString source).size = false)
    (runs : Nat) (q : Rule) (next : Body) :
    ((Body.tryRun r source next).build (Grammar.runNested env.ruleName (runs + 1)) q).run env s =
      (next.build (Grammar.runNested env.ruleName (runs + 1)) q).run env
        (((s.emit (.running (env.ruleName r) (Source.ofString source).size)).emit .ended).emit
          (.caught q)) := by
  have hrun : (Grammar.runNested env.ruleName (runs + 1) {} (.ref r) source).run env s = _ :=
    run_ref_building hr hsize runs
  rw [Body.build]
  rw [Eval.run_bind_of_ok (Eval.run_attempt _ _ _), hrun]
  rfl

/-- A rule whose builder tries the rule itself before it hands back a parser. -/
def Rules.hasty : Rules := fun _ => {
  name := "hasty"
  body := .tryRun "hasty" "x" (.grammar (.char 'x')) }

example : (Visit.run ⟨"hasty", .resolve, none, 1⟩ .hasty (fun _ => 0) {}).1 =
    .ok (.parser (.char 'x')) := by
  rfl

end Descent
