-- SUMMARY: What earlier runs made of the rules does not show in the answers of later ones.
import Descent.Proofs.Discipline
import Descent.Session

/-! # Shared rules

Several runs may share the rules of a grammar. The run that uses a rule first starts
its builder, and the later ones find what it has made of the rule, even if the first
run was stopped afterwards. As long as builders run nothing, what a builder makes of
its rule is known beforehand: `Rules.settled`. Where every rule either was not used
or is what its builder makes of it, answers do not depend on which is the case:
`Eval.Steady`. So every run of a session answers as it would alone:
`Session.answers_eq_alone`. -/

namespace Descent

/-! ## Rules whose builders run nothing -/

namespace Parts

/-- Builders run nothing, and predicates change nothing. -/
def passive : Parts where
  predicate := fun p => p.trigger = none
  builderRuns := False

end Parts

/-- The run may take any time. -/
def RunOptions.Untimed (o : RunOptions) : Prop := o.timeout = none

/-- The functions of authors change nothing, apart from the rules that the runs of
    mapping functions use, and no run is timed. -/
def Grammar.Passive (g : Grammar) : Prop := g.Uses .passive ∧ g.RunsUnder RunOptions.Untimed

namespace Body

/-- The builder runs nothing and hands back a parser of which the same holds, or
    something else, or it raises an error. -/
def Passive (b : Body) : Prop := b.Uses .passive ∧ ∀ g, b.parser? = some g → g.Passive

/-- What a builder hands back that runs nothing. -/
def result : Body → Except Fault (Grammar ⊕ Plain)
  | .grammar g => .ok (.inl g)
  | .plain p => .ok (.inr p)
  | .raise f => .error f
  | .run _ _ next => next.result
  | .tryRun _ _ next => next.result

theorem Passive.build {b : Body} (h : b.Passive) (runInner : RunGrammar) (rule : Rule) :
    b.build runInner rule = Eval.ofExcept b.result := by
  cases b with
  | grammar | plain | raise => rfl
  | run | tryRun => exact h.1.1.elim

theorem Passive.parser {b : Body} (h : b.Passive) {g : Grammar} (hg : b.result = .ok (.inl g)) :
    g.Passive := by
  cases b with
  | grammar g' =>
    cases hg
    exact h.2 g rfl
  | plain | raise => cases hg
  | run | tryRun => exact h.1.1.elim

end Body

namespace Rules

/-- All builders run nothing. -/
def Passive (rules : Rules) : Prop := ∀ r, (rules r).body.Passive

/-- What the builder makes of a rule. -/
def settled (rules : Rules) (r : Rule) : Cell := .ofBuilder (rules.ruleName r) (rules r).body.result

end Rules

/-! ## Steady answers -/

/-- Every rule either was not used or is what its builder makes of it, and nothing was
    cancelled. -/
structure State.Orderly (rules : Rules) (s : State) : Prop where
  cells : ∀ r, s.cells r = .unbuilt ∨ s.cells r = rules.settled r
  cancelled : s.cancelled = false

namespace State.Orderly

variable {rules : Rules} {s : State}

theorem init (rules : Rules) : ({} : State).Orderly rules := ⟨fun _ => .inl rfl, rfl⟩

theorem emit (h : s.Orderly rules) (e : Event) : (s.emit e).Orderly rules := ⟨h.cells, h.cancelled⟩

theorem settle {t : State} {r : Rule} (h : s.Orderly rules)
    (hcells : t.cells = (s.starting r).cells) (hcancelled : t.cancelled = s.cancelled) :
    (t.setCell r (rules.settled r)).Orderly rules := by
  refine ⟨fun q => ?_, hcancelled.trans h.cancelled⟩
  by_cases hq : q = r
  · subst hq
    exact .inr (if_pos rfl)
  · have hcell : (t.setCell r (rules.settled r)).cells q = s.cells q := by
      simp [State.setCell, State.starting, State.emit, hcells, hq]
    rw [hcell]
    exact h.cells q

end State.Orderly

/-- The computation has the given answer in all orderly states. -/
def Eval.Answers {α : Type} (rules : Rules) (env : Env) (x : Eval α) (a : Except Fault α) : Prop :=
  ∀ s : State, s.Orderly rules → (x.run env s).1 = a ∧ (x.run env s).2.Orderly rules

/-- The computation has the same answer in all orderly states. -/
def Eval.Steady {α : Type} (rules : Rules) (env : Env) (x : Eval α) : Prop :=
  ∃ a, x.Answers rules env a

namespace Eval

section Steady

variable {α β : Type} {rules : Rules} {env : Env} {x : Eval α} {a : Except Fault α}

theorem Answers.bind {f : α → Eval β} (hx : x.Answers rules env a)
    (hf : ∀ b, a = .ok b → (f b).Steady rules env) : (x >>= f).Steady rules env := by
  cases a with
  | error e =>
    refine ⟨.error e, fun s hs => ?_⟩
    obtain ⟨ha, ht⟩ := hx s hs
    cases hrun : x.run env s with
    | mk r t =>
      rw [hrun] at ha ht
      cases ha
      rw [Eval.run_bind_of_error hrun]
      exact ⟨rfl, ht⟩
  | ok b =>
    obtain ⟨c, hc⟩ := hf b rfl
    refine ⟨c, fun s hs => ?_⟩
    obtain ⟨ha, ht⟩ := hx s hs
    cases hrun : x.run env s with
    | mk r t =>
      rw [hrun] at ha ht
      cases ha
      rw [Eval.run_bind_of_ok hrun]
      exact hc t ht

theorem Steady.bind {f : α → Eval β} (hx : x.Steady rules env)
    (hf : ∀ b, (f b).Steady rules env) : (x >>= f).Steady rules env := by
  obtain ⟨a, ha⟩ := hx
  exact ha.bind fun b _ => hf b

theorem Steady.pure (b : α) : (Pure.pure b : Eval α).Steady rules env :=
  ⟨.ok b, fun _ hs => ⟨rfl, hs⟩⟩

theorem Steady.raise (f : Fault) : (Eval.raise f : Eval α).Steady rules env :=
  ⟨.error f, fun _ hs => ⟨rfl, hs⟩⟩

theorem Steady.emit (e : Event) : (Eval.emit e).Steady rules env :=
  ⟨.ok (), fun _ hs => ⟨rfl, hs.emit e⟩⟩

theorem Steady.closing {scope : Option Scope}
    (hx : x.Steady rules { env with scope := scope }) (e : Event) :
    (Eval.closing e (Eval.within scope x)).Steady rules env := by
  obtain ⟨a, ha⟩ := hx
  exact ⟨a, fun s hs => ⟨(ha s hs).1, (ha s hs).2.emit e⟩⟩

end Steady

end Eval

/-- The rules are the given ones, and the active run is not timed. -/
structure Env.Untimed (rules : Rules) (env : Env) : Prop where
  rules : env.rules = rules
  scope : ∀ scope, env.scope = some scope → scope.deadline = none

namespace Discipline

variable {rules : Rules}

/-- Computations that have the same answer in all orderly states. -/
def steady (rules : Rules) : Discipline where
  parts := .passive
  options := RunOptions.Untimed
  Obeys := fun x => ∀ env : Env, env.Untimed rules → x.Steady rules env

theorem steady_lawful (rules : Rules) : (steady rules).Lawful where
  pure := fun a _ _ => .pure a
  bind := fun hx hf env henv => (hx env henv).bind fun b => hf b env henv
  raise := fun f _ _ => .raise f
  remark := fun _ _ _ => .emit _
  checkpoint := by
    intro position env henv
    refine ⟨.ok (), fun s hs => ?_⟩
    simp only [checkpoint, Eval.run_bind, Eval.run_ask]
    cases hscope : env.scope with
    | none => exact ⟨rfl, hs⟩
    | some scope =>
      have hcancelled : (s.emit (.checkpoint position)).cancelled = false := hs.cancelled
      simp only [Eval.run_bind, Eval.run_emit, Eval.run_get, hcancelled, Bool.and_false,
        henv.scope scope hscope]
      exact ⟨rfl, hs.emit _⟩
  apply := by
    intro p hp ch env _
    have htrigger : p.trigger = none := hp
    unfold Predicate.apply
    rw [htrigger]
    exact ⟨p.test ch, fun _ hs => ⟨rfl, hs⟩⟩

/-- A rule is resolved to what its builder makes of it, now or before. -/
theorem resolve_answers (hrules : rules.Passive) (runInner : RunGrammar) (r : Rule) {env : Env}
    (henv : env.rules = rules) :
    ∃ a, (rules.settled r).answer? (rules.ruleName r) = some a ∧
      (resolve runInner r).Answers rules env a := by
  subst henv
  obtain ⟨a, ha⟩ : ∃ a, (env.rules.settled r).answer? (env.rules.ruleName r) = some a := by
    unfold Rules.settled
    obtain f | g | p := (env.rules r).body.result
    · exact ⟨_, rfl⟩
    · exact ⟨_, rfl⟩
    · exact ⟨_, rfl⟩
  refine ⟨a, ha, fun s hs => ?_⟩
  rcases hs.cells r with hcell | hcell
  · -- The builder is started now.
    obtain ⟨b, t, e, a', hb, -, ha', hresolve⟩ := run_resolve_of_unbuilt runInner env hcell
    rw [(hrules r).build runInner r] at hb
    cases hb
    have hsettled : a' = a := Option.some.inj (ha'.symm.trans ha)
    rw [hresolve, hsettled]
    exact ⟨rfl, hs.settle rfl rfl⟩
  · rw [run_resolve_of_answer (hcell ▸ ha)]
    exact ⟨rfl, hs⟩

/-- What goes on with the parser of a rule is steady when it is for the parser that the
    builder hands back. -/
theorem resolve_bind_steady (hrules : rules.Passive) (runInner : RunGrammar) (r : Rule)
    {α : Type} {f : Grammar → Eval α} (hf : ∀ g, g.Passive → (steady rules).Obeys (f g)) :
    (steady rules).Obeys (resolve runInner r >>= f) := by
  intro env henv
  obtain ⟨a, ha, hanswers⟩ := resolve_answers hrules runInner r henv.rules
  refine hanswers.bind fun g hg => ?_
  subst hg
  refine hf g ?_ env henv
  apply (hrules r).parser
  unfold Rules.settled at ha
  cases hresult : (rules r).body.result with
  | error f =>
    rw [hresult] at ha
    cases ha
  | ok b =>
    rw [hresult] at ha
    cases b with
    | inl g' =>
      cases ha
      rfl
    | inr p => cases ha

theorem refuse_steady {α : Type} (r : Rule) (position : Nat) :
    (steady rules).Obeys (refuse r position : Eval α) := by
  intro env _
  cases hscope : env.scope with
  | none =>
    refine ⟨.error .stackExhausted, fun s hs => ?_⟩
    simp only [refuse, Eval.run_bind, Eval.run_ask, hscope, Eval.run_raise]
    exact ⟨trivial, hs⟩
  | some scope =>
    refine ⟨.error (.depth scope.guard.limit (env.ruleName r) position), fun s hs => ?_⟩
    rw [run_refuse hscope]
    exact ⟨rfl, hs.emit _⟩

theorem deeper_steady {α : Type} {x : Eval α} (hx : (steady rules).Obeys x) (r : Rule)
    (position : Nat) : (steady rules).Obeys (deeper r position x) := by
  intro env henv
  cases hscope : env.scope with
  | none =>
    obtain ⟨a, ha⟩ := hx env henv
    refine ⟨a, fun s hs => ?_⟩
    have hrun : (deeper r position x).run env s = x.run env s := by
      simp only [deeper, Eval.run_bind, Eval.run_ask, hscope]
    rw [hrun]
    exact ha s hs
  | some scope =>
    let inner : Env := { env with scope := some { scope with guard := scope.guard.enter } }
    have hinner : inner.Untimed rules := by
      refine ⟨henv.rules, ?_⟩
      rintro _ ⟨⟩
      exact henv.scope scope hscope
    obtain ⟨a, ha⟩ := hx inner hinner
    refine ⟨a, fun s hs => ?_⟩
    rw [run_deeper hscope]
    obtain ⟨hanswer, horderly⟩ := ha _ (hs.emit (.opened r position scope.guard.enter.depth))
    exact ⟨hanswer, horderly.emit _⟩

/-- The runs of grammars without timeouts are steady, wherever they are started. -/
def SteadyRuns (rules : Rules) (runInner : RunGrammar) : Prop :=
  ∀ o (g : Grammar) text, o.Untimed → g.Passive → ∀ env : Env, env.rules = rules →
    (runInner o g text).Steady rules env

theorem links_steady (hrules : rules.Passive) {runInner : RunGrammar}
    (hrun : SteadyRuns rules runInner) (allowance : Nat) :
    (rules.links runInner allowance).Obey (steady rules) := by
  have hD := steady_lawful rules
  have hinner : ∀ o (g : Grammar) text, o.Untimed → g.Uses .passive →
      g.RunsUnder RunOptions.Untimed → (steady rules).Obeys (runInner o g text) :=
    fun o g text ho hg hruns env henv => hrun o g text ho ⟨hg, hruns⟩ env henv.rules
  induction allowance with
  | zero =>
    refine ⟨fun r c _ => ?_, fun _ => hinner⟩
    refine resolve_bind_steady hrules runInner r fun _ _ => ?_
    exact hD.bind (hD.checkpoint _) fun _ => refuse_steady _ _
  | succ n ih =>
    refine ⟨fun r c _ => ?_, fun _ => hinner⟩
    refine resolve_bind_steady hrules runInner r fun g hg => ?_
    refine hD.bind (hD.checkpoint _) fun _ => deeper_steady ?_ _ _
    exact g.obeys hD ih hg.1 hg.2 c

theorem openScope_answers (maxDepth : Int) (watched : Bool) (env : Env) :
    (openScope maxDepth none watched).Answers rules env
      (.ok { guard := .ofRequested maxDepth, watched := watched }) := by
  intro s hs
  unfold openScope noteLowered
  cases StackBudget.lowered? {} maxDepth with
  | none => exact ⟨rfl, hs⟩
  | some e => exact ⟨rfl, hs.emit e⟩

theorem conclude_steady (p : Parser) (o : Outcome) (env : Env) :
    (p.conclude o).Steady rules env := by
  cases o with
  | success v n => exact .pure _
  | failure f => exact Eval.Steady.bind (.emit _) fun _ => .pure _

theorem run_steady {p : Parser} (hp : (steady rules).Parses p) {o : RunOptions} (ho : o.Untimed)
    (source : Source) {env : Env} (henv : env.rules = rules) :
    (p.run o source).Steady rules env := by
  rw [Parser.run_eq]
  split
  · exact .raise _
  · have hopen : (openScope o.maxDepth o.timeout o.watched).Answers rules env
        (.ok { guard := .ofRequested o.maxDepth, watched := o.watched }) := by
      rw [ho]
      exact openScope_answers o.maxDepth o.watched env
    refine hopen.bind fun scope hscope => ?_
    cases hscope
    refine Eval.Steady.bind (.emit _) fun _ => ?_
    have hinner : Env.Untimed rules { env with
        scope := some { guard := .ofRequested o.maxDepth, watched := o.watched } } := by
      refine ⟨henv, ?_⟩
      rintro _ ⟨⟩
      rfl
    exact (Eval.Steady.closing (hp _ _ hinner) _).bind fun outcome => conclude_steady p _ env

theorem runNested_steady (hrules : rules.Passive) (runs : Nat) :
    SteadyRuns rules (Grammar.runNested rules.ruleName runs) := by
  induction runs with
  | zero => exact fun _ _ _ _ _ _ _ => .raise _
  | succ n ih =>
    intro o g text ho hg env henv
    have hlinks := links_steady hrules ih o.allowance
    exact run_steady (g.obeys (steady_lawful rules) hlinks hg.1 hg.2) ho _ henv

end Discipline

/-- The run of a grammar has the same answer in all orderly states. -/
theorem Grammar.run_steady {rules : Rules} (hrules : rules.Passive) {g : Grammar} (hg : g.Passive)
    {o : RunOptions} (ho : o.Untimed) (source : Source) {env : Env} (henv : env.rules = rules) :
    (g.run o source).Steady rules env := by
  subst henv
  have hruns : Discipline.SteadyRuns env.rules (Grammar.runInner env) :=
    Discipline.runNested_steady hrules stackLimit
  have hlinks := Discipline.links_steady hrules hruns o.allowance
  have hp : (Discipline.steady env.rules).Parses (g.parser env o.allowance) :=
    g.obeys (Discipline.steady_lawful env.rules) hlinks hg.1 hg.2
  obtain ⟨a, ha⟩ := Discipline.run_steady hp ho source rfl
  refine ⟨a, fun s hs => ?_⟩
  rw [Grammar.run_run]
  exact ha s hs

/-! ## Sessions -/

/-- A run that is made in a session. -/
structure ParseStep where
  grammar : Grammar
  options : RunOptions := {}
  source : Source

/-- The functions of authors change nothing, and there is no timeout. -/
def ParseStep.Passive (p : ParseStep) : Prop := p.grammar.Passive ∧ p.options.Untimed

namespace Session

/-- Makes a run. -/
def parse (s : Session) (p : ParseStep) : Except Fault Outcome × Session :=
  s.perform (p.grammar.run p.options p.source)

/-- The answers of several runs, one after the other. -/
def answers (s : Session) : List ParseStep → List (Except Fault Outcome)
  | [] => []
  | p :: ps => (s.parse p).1 :: (s.parse p).2.answers ps

/-- In orderly states a run answers alike, and it leaves the session orderly. -/
theorem parse_steady {s : Session} (hrules : s.rules.Passive) {p : ParseStep} (hp : p.Passive)
    {t : State} (hs : s.state.Orderly s.rules) (ht : t.Orderly s.rules) :
    ∃ u : State, u.Orderly s.rules ∧
      { s with state := t }.parse p = ((s.parse p).1, { s with state := u }) := by
  obtain ⟨a, ha⟩ := Grammar.run_steady hrules hp.1 hp.2 p.source (rfl : s.env.rules = s.rules)
  obtain ⟨hanswer, -⟩ := ha s.state hs
  obtain ⟨hanswer', horderly⟩ := ha t ht
  refine ⟨_, horderly, ?_⟩
  exact Prod.ext (hanswer'.trans hanswer.symm) rfl

theorem answers_steady {s : Session} (hrules : s.rules.Passive) (hs : s.state.Orderly s.rules)
    {steps : List ParseStep} (hsteps : ∀ p ∈ steps, p.Passive) {t : State}
    (ht : t.Orderly s.rules) :
    { s with state := t }.answers steps = steps.map fun p => (s.parse p).1 := by
  induction steps generalizing t with
  | nil => rfl
  | cons p ps ih =>
    obtain ⟨hp, hps⟩ := List.forall_mem_cons.1 hsteps
    obtain ⟨u, hu, hparse⟩ := parse_steady hrules hp hs ht
    rw [answers, hparse, ih hps hu, List.map_cons]

/-- Runs that are made in one session answer as each of them would alone, before any
    rule was used. So it does not matter in which order they are made. -/
theorem answers_eq_alone (rules : Rules) (clock : Nat → Rat) (contexts : List Context)
    (hrules : rules.Passive) (steps : List ParseStep) (hsteps : ∀ p ∈ steps, p.Passive) :
    let fresh : Session := { rules := rules, clock := clock, contexts := contexts }
    fresh.answers steps = steps.map (fun p => (fresh.parse p).1) ∧
      ∀ steps' : List ParseStep, steps'.Perm steps →
        (steps'.zip (fresh.answers steps')).Perm (steps.zip (fresh.answers steps)) := by
  intro fresh
  have halone : ∀ steps : List ParseStep, (∀ p ∈ steps, p.Passive) →
      fresh.answers steps = steps.map fun p => (fresh.parse p).1 :=
    fun _ h => answers_steady (s := fresh) hrules (.init rules) h (.init rules)
  refine ⟨halone steps hsteps, fun steps' hperm => ?_⟩
  have hsteps' : ∀ p ∈ steps', p.Passive := fun p hp => hsteps p (hperm.mem_iff.1 hp)
  have hzip : ∀ steps : List ParseStep,
      steps.zip (steps.map fun p => (fresh.parse p).1) =
        steps.map fun p => (p, (fresh.parse p).1) := by
    intro steps
    rw [← List.zip_map', List.map_id']
  rw [halone steps hsteps, halone steps' hsteps', hzip, hzip]
  exact hperm.map _

end Session

/-- The letter `x` in any number of parentheses, and a rule that cannot be built. -/
def Rules.partly : Rules := fun r =>
  if r = "broken" then { name := "broken", body := .raise (.authored .invalidValue "no grammar") }
  else nested r

theorem Rules.partly_passive : Rules.partly.Passive := by
  intro r
  unfold partly
  split
  · exact ⟨trivial, nofun⟩
  · refine ⟨nested_use .passive (fun _ => trivial) r trivial, ?_⟩
    rintro g ⟨⟩
    exact ⟨⟨⟨trivial, trivial, trivial⟩, trivial⟩, ⟨⟨trivial, trivial, trivial⟩, trivial⟩⟩

namespace Session

/-- The second run uses what the first one built, and the fourth one what the third one
    could not build. -/
theorem answers_eq_alone_partly :
    let steps : List ParseStep :=
      [⟨.ref "nested", {}, .ofString "((x))"⟩, ⟨.ref "nested", {}, .ofString "(x"⟩,
        ⟨.ref "broken", {}, .ofString "x"⟩, ⟨.ref "broken", {}, .ofString "x"⟩]
    let fresh : Session := { rules := .partly }
    Rules.partly.Passive ∧ (∀ p ∈ steps, p.Passive) ∧
      fresh.answers steps = steps.map fun p => (fresh.parse p).1 := by
  intro steps fresh
  have hsteps : ∀ p ∈ steps, p.Passive := by
    have hrule : ∀ r : Rule, (Grammar.ref r).Passive := fun _ => ⟨trivial, trivial⟩
    simp [steps, ParseStep.Passive, RunOptions.Untimed, hrule]
  exact ⟨Rules.partly_passive, hsteps,
    (answers_eq_alone .partly _ [] Rules.partly_passive steps hsteps).1⟩

end Session

end Descent
