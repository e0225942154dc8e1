-- SUMMARY: The depth limit of a run stops the run or leaves its answer as it is.
import Descent.Proofs.Lockstep
import Descent.Proofs.Soundness

/-! # The depth limit

A refused delegation is a fault, and no combinator turns a fault into an answer.
So a run that is not stopped by its limit would answer the same under any higher
limit. When the guard of a run stops it, the journal tells where: at a delegation
that was attempted while as many delegations of the run were open as the limit
allows. Both are in `Grammar.run_depth_limit`. -/

namespace Descent

/-! ## A higher limit -/

namespace Comparison

/-- The comparison with an evaluation that may open more delegations. A refusal
    in the first evaluation is excused. -/
def deepening : Comparison where
  scopes := fun a b => ∃ x y : Scope, a = some x ∧ b = some y ∧
    y.deadline = x.deadline ∧ y.watched = x.watched
  excused := Fault.IsDepth

theorem deepening_lawful : deepening.Lawful where
  located := fun f => f.shift_zero.symm
  scopes := by
    rintro _ _ ⟨x, y, rfl, rfl, hdeadline, hwatched⟩
    exact .inr ⟨x, y, rfl, rfl, hdeadline, hwatched, _, _, rfl, rfl, hdeadline, hwatched⟩

theorem deepening_allows : deepening.Allows := .of_here rfl fun _ => rfl

theorem refuse_deepening {α β : Type} {R : α → β → Prop} (r : Rule) (position : Nat)
    (y : Eval β) : deepening.Sim R (refuse r position) y := by
  intro env env' s t henv hst
  obtain ⟨scope, _, hscope, -⟩ := henv.scope
  rw [run_refuse hscope]
  exact .inl ⟨_, _, _, rfl⟩

/-- Delegations do the same when more of them may be opened. -/
theorem links_deepening {runInner : RunGrammar} (hrun : Runs {} runInner) (rules : Rules)
    {n m : Nat} (h : n ≤ m) :
    deepening.Linked (rules.links runInner n) (rules.links runInner m) := by
  have hk := deepening_lawful
  induction n generalizing m with
  | zero =>
    refine ⟨rfl, fun r hr c => ?_, hrun.sim (k := deepening) fun _ _ => rfl⟩
    cases m with
    | zero =>
      refine .bind (resolve_sim hk hrun hr) fun _ _ _ => ?_
      exact .bind (.checkpoint hk c) fun _ _ _ => refuse_deepening _ _ _
    | succ m =>
      refine .bind (resolve_sim hk hrun hr) fun _ _ _ => ?_
      exact .bind (.checkpoint hk c) fun _ _ _ => refuse_deepening _ _ _
  | succ n ih =>
    refine ⟨rfl, fun r hr c => ?_, hrun.sim (k := deepening) fun _ _ => rfl⟩
    obtain ⟨m, rfl⟩ : ∃ k, m = k + 1 := ⟨m - 1, by omega⟩
    refine .bind (resolve_sim hk hrun hr) ?_
    rintro _ g ⟨rfl, hg⟩
    refine .bind (.checkpoint hk c) fun _ _ _ => ?_
    have hlinks := ih (Nat.le_of_succ_le_succ h)
    exact deeper_sim hk ((denote_sim hk deepening_allows hlinks g hg).fn c) _ _ _

theorem parser_deepening (g : Grammar) (env : Env) {n m : Nat} (h : n ≤ m) (c : Cursor) :
    deepening.Sim (fun a b => b = a) ((g.parser env n).fn c) ((g.parser env m).fn c) := by
  have hrun : Runs {} (Grammar.runInner env) := runNested_sim {} env.rules stackLimit
  have hlinks := links_deepening hrun env.rules h
  exact (denote_sim deepening_lawful deepening_allows hlinks g g.uses_all).here rfl c

theorem run_deepening (g : Grammar) (o : RunOptions) {m : Int} (h : o.maxDepth ≤ m)
    (source : Source) :
    Sim { deepening with scopes := fun _ _ => True } (fun a b => b = a) (g.run o source)
      (g.run { o with maxDepth := m } source) := by
  refine .bind .ask fun env env' henv => ?_
  obtain ⟨rules, scope, clock⟩ := env'
  obtain ⟨rfl, rfl, -, -⟩ := henv
  have hallowance : o.allowance ≤ RunOptions.allowance { o with maxDepth := m } := by
    simp only [RunOptions.allowance, Guard.ofRequested, Guard.allowance, effectiveLimit]
    omega
  have hp := parser_deepening g env hallowance (.start source)
  exact run_sim (fun _ => rfl) hp o m fun deadline => ⟨_, _, rfl, rfl, rfl, rfl⟩

end Comparison

/-! ## Refusals -/

/-- The event only says that a delegation or a run is over. -/
def Event.IsClosing (e : Event) : Prop := e = .ended ∨ ∃ r, e = .closed r

/-- The journal goes on from `j₀` up to a refused delegation, at which `n` more
    delegations were open, and then only closes what was open. -/
def Journal.Refused (limit : Int) (rule : String) (position n : Int) (j₀ j : Journal) : Prop :=
  ∃ (after during : Journal) (p : Nat),
    j = after ++ .depthReached limit rule p :: (during ++ j₀) ∧ position = p ∧
      during.unclosed = n ∧ ∀ e ∈ after, e.IsClosing

namespace Journal.Refused

variable {limit position n : Int} {rule : String} {j₀ j : Journal}

theorem close (h : Refused limit rule position n j₀ j) {e : Event} (he : e.IsClosing) :
    Refused limit rule position n j₀ (e :: j) := by
  obtain ⟨after, during, p, rfl, hp, hn, hafter⟩ := h
  refine ⟨e :: after, during, p, rfl, hp, hn, ?_⟩
  intro e' he'
  rcases List.mem_cons.1 he' with rfl | he'
  · exact he
  · exact hafter e' he'

/-- A refusal after a stretch of the journal, seen from before that stretch. -/
theorem since {k : Journal} (h : Refused limit rule position n (k ++ j₀) j) :
    Refused limit rule position (n + k.unclosed) j₀ j := by
  obtain ⟨after, during, p, rfl, hp, hn, hafter⟩ := h
  refine ⟨after, during ++ k, p, ?_, hp, ?_, hafter⟩
  · simp
  · simp [hn]

end Journal.Refused

namespace Invariant

/-- The state has grown from a given one, and a fault of the guard that no
    function of the author raised is a refusal as described. -/
def refusing (rules : Rules) (parts : Parts) (s₀ : State) (within : Env → Prop)
    (refusal : Int → String → Int → Journal → Prop) : Invariant where
  rules := rules
  parts := parts
  holds := fun env s => (grown rules parts s₀).holds env s ∧ within env
  stops := fun _ f s => ∀ limit rule position, f = .depth limit rule position →
    parts.Raises f ∨ refusal limit rule position s.journal

theorem refusing_lawful (rules : Rules) (parts : Parts) (s₀ : State) (within : Env → Prop)
    (refusal : Int → String → Int → Journal → Prop) :
    (refusing rules parts s₀ within refusal).Lawful where
  rules := fun h => h.1.1
  faithful := fun h => h.1.2.faithful
  grown := fun h hst => ⟨(grown_lawful rules parts s₀).grown h.1 hst, h.2⟩
  stops := by
    rintro env s f - hf limit rule position rfl
    exact hf.imp_right fun hdepth => absurd ⟨limit, rule, position, rfl⟩ hdepth

/-- Inside a run with the given guard. A delegation is refused when the limit is
    reached, so from now on as many are opened as are missing. -/
def guarded (rules : Rules) (parts : Parts) (guard : Guard) (s₀ : State) : Invariant :=
  refusing rules parts s₀ (fun env => ∃ scope, env.scope = some scope ∧ scope.guard = guard)
    fun limit rule position j => limit = guard.limit ∧
      Journal.Refused limit rule position (max 0 limit - guard.depth) s₀.journal j

theorem guarded_lawful (rules : Rules) (parts : Parts) (guard : Guard) (s₀ : State) :
    (guarded rules parts guard s₀).Lawful := refusing_lawful _ _ _ _ _

end Invariant

/-- Where a delegation may be opened, one less may be opened inside it, and no more
    than the limit are open. -/
theorem Guard.enter_of_allowance {guard : Guard} {n : Nat} (h : guard.allowance = n + 1) :
    guard.enter.allowance = n ∧ guard.enter.depth ≤ max 0 guard.enter.limit := by
  constructor
  · simp [allowance_enter, h]
  · unfold allowance at h
    simp only [enter]
    omega

section Delegations

variable {rules : Rules} {parts : Parts} {guard : Guard} {s₀ : State}

theorem refuse_guarded {α : Type} {Q : α → Prop} (hfull : guard.depth = max 0 guard.limit)
    (r : Rule) (position : Nat) :
    Eval.Ensures (.guarded rules parts guard s₀) Q (refuse r position) := by
  intro env s hs
  obtain ⟨⟨_, hgrown⟩, scope, hscope, rfl⟩ := hs
  rw [run_refuse hscope]
  rintro _ _ _ ⟨⟩
  obtain ⟨j, hj, hj₀⟩ := hgrown.journal
  refine .inr ⟨rfl, [], j, position, ?_, rfl, ?_, by simp⟩
  · rw [← hj]
    rfl
  · simp [hj₀, hfull]

theorem deeper_guarded {α : Type} {Q : α → Prop} {x : Eval α}
    (hx : ∀ s₁, Eval.Ensures (.guarded rules parts guard.enter s₁) Q x) (r : Rule)
    (position : Nat) : Eval.Ensures (.guarded rules parts guard s₀) Q (deeper r position x) := by
  intro env s hs
  obtain ⟨⟨hrules, hgrown⟩, scope, hscope, rfl⟩ := hs
  let s₁ := s.emit (.opened r position scope.guard.enter.depth)
  let inner : Env := { env with scope := some { scope with guard := scope.guard.enter } }
  have h := hx s₁ inner s₁ ⟨⟨hrules, .refl hgrown.faithful⟩, _, rfl, rfl⟩
  rw [run_deeper hscope, Eval.run_closing]
  cases hrun : x.run inner s₁ with
  | mk a s₂ =>
    rw [hrun] at h
    cases a with
    | ok a =>
      obtain ⟨ha, ⟨_, hs₂⟩, _⟩ := h
      exact ⟨ha, ⟨hrules, hgrown.trans (State.grown_delegation hs₂)⟩, scope, hscope, rfl⟩
    | error f =>
      intro limit rule p hf
      refine (h limit rule p hf).imp_right ?_
      rintro ⟨hlimit, hrefused⟩
      refine ⟨hlimit, ?_⟩
      obtain ⟨j, hj, hj₀⟩ := hgrown.journal
      have hs₁ : s₁.journal = (.opened r position scope.guard.enter.depth :: j) ++ s₀.journal :=
        congrArg _ hj
      rw [hs₁] at hrefused
      have hsince := hrefused.since.close (.inr ⟨r, rfl⟩)
      have hcount : max 0 limit - scope.guard.enter.depth +
          Journal.unclosed (.opened r position scope.guard.enter.depth :: j) =
            max 0 limit - scope.guard.depth := by
        rw [Journal.unclosed_cons, hj₀]
        simp only [Guard.enter, Event.opens]
        omega
      rwa [hcount] at hsince

theorem Rules.links_guarded (hauthor : ∀ fn, ¬ parts.author fn) (hruns : ¬ parts.mappingRuns)
    (hrules : rules.Use parts) {runInner : RunGrammar} (hrun : runInner.Grows rules parts)
    {n : Nat} (hn : guard.allowance = n) (hdepth : guard.depth ≤ max 0 guard.limit) (s₀ : State) :
    (rules.links runInner n).Sound (.guarded rules parts guard s₀) := by
  have hI := Invariant.guarded_lawful rules parts
  induction n generalizing guard s₀ with
  | zero =>
    refine ⟨rfl, fun r c hr => ?_, fun h => absurd h hruns⟩
    have hfull : guard.depth = max 0 guard.limit := by
      unfold Guard.allowance at hn
      omega
    refine .bind (resolve_ensures (hI _ _) hrun hrules hr) fun g _ => ?_
    exact .bind (.checkpoint (hI _ _) _) fun _ _ => refuse_guarded hfull _ _
  | succ n ih =>
    refine ⟨rfl, fun r c hr => ?_, fun h => absurd h hruns⟩
    obtain ⟨hn', hdepth'⟩ := Guard.enter_of_allowance hn
    refine .bind (resolve_ensures (hI _ _) hrun hrules hr) fun g hg => ?_
    have hg' : g.Uses parts := (hrules r hr).parser hg
    refine .bind (.checkpoint (hI _ _) _) fun _ _ => deeper_guarded (fun s₁ => ?_) _ _
    exact (Grammar.sound (hI _ _) hauthor (ih hn' hdepth' s₁) g hg' c).mono fun o ho => .ref hg ho

end Delegations

/-! ## Runs -/

namespace Invariant

/-- Outside a run. A refusal inside the run counts the delegations that were open
    since the run began. -/
def running (rules : Rules) (parts : Parts) (p : Parser) (o : RunOptions) (source : Source)
    (s₀ : State) : Invariant :=
  refusing rules parts s₀ (fun _ => True) fun limit rule position j =>
    limit = effectiveLimit o.maxDepth ∧ ∃ earlier, s₀.journal <:+ earlier ∧
      Journal.Refused limit rule position (max 0 limit) (.running p.name source.size :: earlier) j

end Invariant

theorem Parser.run_refused {rules : Rules} {parts : Parts} {p : Parser} {o : RunOptions}
    {source : Source} {Q : Outcome → Prop}
    (hp : ∀ s₁, Eval.Ensures (.guarded rules parts (.ofRequested o.maxDepth) s₁) Q
      (p.fn (.start source)))
    (s₀ : State) :
    Eval.Ensures (.running rules parts p o source s₀) (fun _ => True) (p.run o source) := by
  have hI : (Invariant.running rules parts p o source s₀).Lawful :=
    Invariant.refusing_lawful _ _ _ _ _
  unfold Parser.run
  split
  · exact .bind (.raise hI (.inr nofun)) fun _ (h : False) => h.elim
  · refine .bind (openScope_ensures hI _ _ _) fun scope hscope => ?_
    intro env s hs
    let s₁ := s.emit (.running p.name source.size)
    let inner : Env := { env with scope := some scope }
    have hs₁ : s₀.Grown rules s₁ := hs.1.2.trans (State.grown_emit hs.1.2.faithful rfl)
    have h := hp s₁ inner s₁ ⟨⟨hs.1.1, .refl hs₁.faithful⟩, scope, rfl, hscope⟩
    simp only [Eval.run_bind, Eval.run_emit, Eval.run_closing, Eval.run_within]
    cases hrun : (p.fn (.start source)).run inner s₁ with
    | mk r s₂ =>
      rw [hrun] at h
      cases r with
      | ok out =>
        have hs₂ : s₁.Grown rules s₂ := h.2.1.2
        have hended : s₂.Grown rules (s₂.emit .ended) := State.grown_emit hs₂.faithful rfl
        have hconclude : Eval.Ensures (.running rules parts p o source s₀) (fun _ => True)
            (p.conclude (out.whole o)) := (p.conclude_ensures hI _).mono fun _ _ => trivial
        exact hconclude env (s₂.emit .ended) ⟨⟨hs.1.1, (hs₁.trans hs₂).trans hended⟩, trivial⟩
      | error f =>
        intro limit rule position hf
        refine (h limit rule position hf).imp_right ?_
        rintro ⟨hlimit, hrefused⟩
        obtain ⟨j, hj, -⟩ := hs.1.2.journal
        refine ⟨hlimit, s.journal, ⟨j, hj.symm⟩, ?_⟩
        have hclosed := hrefused.close (.inl rfl)
        rwa [Guard.ofRequested, Int.natCast_zero, Int.sub_zero] at hclosed

theorem Grammar.parser_guarded {parts : Parts} (hauthor : ∀ fn, ¬ parts.author fn)
    (hruns : ¬ parts.mappingRuns) {env : Env} (hrules : env.rules.Use parts) {g : Grammar}
    (hg : g.Uses parts) (o : RunOptions) (c : Cursor) (s₀ : State) :
    Eval.Ensures (.guarded env.rules parts (.ofRequested o.maxDepth) s₀) (Yields env.rules g c)
      ((g.parser env o.allowance).fn c) := by
  have hI := Invariant.guarded_lawful env.rules parts (.ofRequested o.maxDepth) s₀
  have hrun := Grammar.runNested_grows hauthor hrules stackLimit
  have hdepth : (Guard.ofRequested o.maxDepth).depth ≤ max 0 (Guard.ofRequested o.maxDepth).limit :=
    Int.le_max_left _ _
  have hlinks := Rules.links_guarded hauthor hruns hrules hrun rfl hdepth s₀
  exact Grammar.sound hI hauthor hlinks g hg c

theorem Grammar.run_eq_of_le (g : Grammar) (o : RunOptions) {m : Int} (hm : o.maxDepth ≤ m)
    (source : Source) (env : Env) (s : State)
    (hdepth : ∀ f, ((g.run o source).run env s).1 = .error f → ¬ f.IsDepth) :
    ((g.run { o with maxDepth := m } source).run env s).1 = ((g.run o source).run env s).1 := by
  have hsim := Comparison.run_deepening g o hm source env env s s
    ⟨rfl, rfl, trivial, env.rules.use_all⟩ (.refl fun _ g _ _ => g.uses_all)
  cases hrun : (g.run o source).run env s with
  | mk r s₁ =>
    rw [hrun] at hsim hdepth
    cases r with
    | ok out =>
      obtain ⟨_, t, hy, rfl, -⟩ := hsim
      simp [hy]
    | error f =>
      obtain ⟨_, t, hy, rfl, -⟩ := hsim.resolve_left (hdepth f rfl)
      simp [hy]

end Descent
