-- SUMMARY: Rules, delegations and runs in two evaluations side by side.
import Descent.Proofs.Comparison

/-! # Rules and runs side by side

A run has a scope of its own, so it ends in the same way wherever it is started:
`Comparison.runNested_sim`. The runs that builders start are of this kind, so two
evaluations that reach the same rule find the same parser there, however their
own limits differ: `Comparison.resolve_sim`. -/

namespace Descent

namespace Comparison

variable {α β : Type} {k : Comparison} {R : α → β → Prop} {x : Eval α} {y : Eval β}

/-! ## Runs in any scopes -/

/-- The comparison of what does not depend on the active scope. -/
def ambient (parts : Parts) : Comparison where
  parts := parts
  scopes := fun _ _ => True

/-- The runs of grammars do not depend on the scope in which they start. -/
def Runs (parts : Parts) (runInner : RunGrammar) : Prop :=
  ∀ o (g : Grammar) text, g.Uses parts →
    (ambient parts).Sim (fun a b => b = a) (runInner o g text) (runInner o g text)

theorem Envs.ambient {env env' : Env} (h : k.Envs env env') :
    (ambient k.parts).Envs env env' :=
  ⟨h.rules, h.clock, trivial, h.use⟩

theorem Sim.of_ambient (hfaults : ∀ f, k.faults f f) (hx : (ambient k.parts).Sim R x y) :
    k.Sim R x y := by
  intro env env' s t henv hst
  have h := hx env env' s t henv.ambient hst
  cases hrun : x.run env s with
  | mk r s₁ =>
    rw [hrun] at h
    cases r with
    | ok a => exact h
    | error f =>
      obtain ⟨_, t₁, hy, rfl, hst₁⟩ := h.resolve_left id
      exact .inr ⟨f, t₁, hy, hfaults f, hst₁⟩

theorem Runs.sim {runInner : RunGrammar} (hrun : Runs k.parts runInner)
    (hfaults : k.parts.mappingRuns → ∀ f, k.faults f f) (hruns : k.parts.mappingRuns)
    (o : RunOptions) (g : Grammar) (text : String) (hg : g.Uses k.parts) :
    k.Sim (fun a b => b = a) (runInner o g text) (runInner o g text) :=
  .of_ambient (hfaults hruns) (hrun o g text hg)

/-- What does not depend on the scope can be attempted in any comparison. -/
theorem Sim.attempt {x y : Eval α} {Q : α → Prop}
    (hx : (ambient k.parts).Sim (fun a b => b = a ∧ Q a) x y) :
    k.Sim (fun r r' => r' = r ∧ ∀ a, r = .ok a → Q a) (Eval.attempt x) (Eval.attempt y) := by
  intro env env' s t henv hst
  have h := hx env env' s t henv.ambient hst
  rw [Eval.run_attempt, Eval.run_attempt]
  cases hrun : x.run env s with
  | mk r s₁ =>
    rw [hrun] at h
    cases r with
    | ok a =>
      obtain ⟨_, t₁, hy, ⟨rfl, ha⟩, hst₁⟩ := h
      rw [hy]
      refine ⟨_, t₁, rfl, ⟨rfl, ?_⟩, hst₁⟩
      rintro _ ⟨⟩
      exact ha
    | error f =>
      obtain ⟨_, t₁, hy, rfl, hst₁⟩ := h.resolve_left id
      rw [hy]
      exact ⟨_, t₁, rfl, ⟨rfl, nofun⟩, hst₁⟩

theorem Sim.within {S : Option Scope → Option Scope → Prop} {scope scope' : Option Scope}
    (hx : Sim { k with scopes := S } R x y) (h : S scope scope') :
    k.Sim R (Eval.within scope x) (Eval.within scope' y) :=
  fun _ _ s t henv hst => hx _ _ s t ⟨henv.rules, henv.clock, h, henv.use⟩ hst

/-! ## Rules -/

section Rules

variable {runInner : RunGrammar}

theorem build_sim {parts : Parts} (hrun : Runs parts runInner) (rule : Rule) (b : Body)
    (hb : b.Uses parts) :
    (ambient parts).Sim (fun r r' => r' = r ∧ ∀ g, r = .inl g → g.Uses parts)
      (b.build runInner rule) (b.build runInner rule) := by
  induction b with
  | grammar g =>
    refine .pure ⟨rfl, ?_⟩
    rintro _ ⟨⟩
    exact hb
  | plain p => exact .pure ⟨rfl, nofun⟩
  | raise f => exact .fault rfl
  | run used source next ih =>
    exact .bind (hrun _ _ _ hb.2.1) fun _ _ _ => ih hb.2.2
  | tryRun used source next ih =>
    have hused : (ambient parts).Sim (fun a b => b = a ∧ True) (runInner {} (.ref used) source)
        (runInner {} (.ref used) source) := by
      simpa only [and_true] using hrun {} (.ref used) source hb.2.1
    refine .bind (.attempt hused) ?_
    rintro _ r ⟨rfl, -⟩
    cases r with
    | ok o => exact ih hb.2.2
    | error f =>
      dsimp only
      split
      · exact .bind (.emit _ _) fun _ _ _ => ih hb.2.2
      · exact .fault rfl

theorem breakRule_sim (hk : k.Lawful) (rule : Rule) (d : Diagnostic) (cause : Option Fault) :
    k.Sim R (breakRule rule d cause) (breakRule rule d cause) :=
  .bind (.modify fun _ _ hst => hst.setCell rule nofun) fun _ _ _ => .raise hk rfl

/-- Two evaluations find the same parser at a rule. -/
theorem resolve_sim (hk : k.Lawful) (hrun : Runs k.parts runInner) {r : Rule}
    (hr : k.parts.rule r) :
    k.Sim (fun g g' => g' = g ∧ g.Uses k.parts) (resolve runInner r) (resolve runInner r) := by
  have hbuild : k.Sim (fun g g' => g' = g ∧ g.Uses k.parts) (buildRule runInner r)
      (buildRule runInner r) := by
    refine .bind .ask fun env env' henv => ?_
    simp only [Env.ruleName, henv.rules]
    refine .bind (.modify fun _ _ hst => hst.setCell r nofun) fun _ _ _ => ?_
    refine .bind (.emit _ _) fun _ _ _ => ?_
    refine .bind (.attempt (build_sim hrun r _ (henv.use r hr))) ?_
    rintro _ built ⟨rfl, hbuilt⟩
    obtain f | g | p := built
    · exact .bind (.emit _ _) fun _ _ _ => breakRule_sim hk _ _ _
    · -- The builder handed back a parser.
      have hg : g.Uses k.parts := hbuilt _ rfl g rfl
      refine .bind (.emit _ _) fun _ _ _ => ?_
      refine .bind (.modify fun _ _ hst => hst.setCell r ?_) fun _ _ _ => .pure ⟨rfl, hg⟩
      rintro _ ⟨⟩
      exact hg
    · exact .bind (.emit _ _) fun _ _ _ => breakRule_sim hk _ _ _
  refine .bind .get fun s t hst => ?_
  rw [hst.cells]
  cases hcell : s.cells r with
  | unbuilt => exact hbuild
  | building =>
    refine .bind .ask fun env env' henv => .raise hk ?_
    simp only [Env.ruleName, henv.rules]
    rfl
  | built g => exact .pure ⟨rfl, hst.built r g hr hcell⟩
  | failed d cause => exact .raise hk rfl

end Rules

/-! ## Delegations -/

theorem deeper_sim (hk : k.Lawful) (hx : k.Sim R x y) (r : Rule) (i j : Nat) :
    k.Sim R (deeper r i x) (deeper r j y) := by
  refine .bind .ask fun env env' henv => ?_
  obtain ⟨ha, hb⟩ | ⟨a, b, ha, hb, -, -, hdeeper⟩ := hk.scopes _ _ henv.scope
  · rw [ha, hb]
    exact hx
  · rw [ha, hb]
    exact .bind (.emit _ _) fun _ _ _ => .closing (.within hx hdeeper) _ _

theorem refuse_sim (hk : k.Lawful) (hsame : ∀ a b, k.scopes a b → b = a) (r : Rule) (c : Cursor) :
    k.Sim R (refuse r c.pos) (refuse r (c.shift k.lead).pos) := by
  refine .bind .ask fun env env' henv => ?_
  rw [hsame _ _ henv.scope]
  cases env.scope with
  | none => exact .raise hk rfl
  | some scope =>
    refine .bind (.emit _ _) fun _ _ _ => .raise hk ?_
    have hpos : ((c.shift k.lead).pos : Int) = c.pos + k.lead.size := by
      rw [Cursor.shift_pos]
      omega
    rw [hpos, Env.ruleName, Env.ruleName, henv.rules]
    rfl

/-- In the same scopes delegations do the same. -/
theorem links_sim (hk : k.Lawful) (hparts : k.Allows) (hsame : ∀ a b, k.scopes a b → b = a)
    {runInner : RunGrammar} (hrun : Runs k.parts runInner)
    (hfaults : k.parts.mappingRuns → ∀ f, k.faults f f) (rules : Rules) (allowance : Nat) :
    k.Linked (rules.links runInner allowance) (rules.links runInner allowance) := by
  induction allowance with
  | zero =>
    refine ⟨rfl, fun r hr c => ?_, hrun.sim hfaults⟩
    refine .bind (resolve_sim hk hrun hr) fun _ _ _ => ?_
    exact .bind (.checkpoint hk c) fun _ _ _ => refuse_sim hk hsame r c
  | succ n ih =>
    refine ⟨rfl, fun r hr c => ?_, hrun.sim hfaults⟩
    refine .bind (resolve_sim hk hrun hr) ?_
    rintro _ g ⟨rfl, hg⟩
    refine .bind (.checkpoint hk c) fun _ _ _ => ?_
    exact deeper_sim hk ((denote_sim hk hparts ih g hg).fn c) _ _ _

/-! ## Runs -/

/-- Only one of two limits may have to be lowered. -/
theorem noteLowered_sim (m m' : Int) :
    k.Sim (fun _ _ => True) (noteLowered m) (noteLowered m') := by
  have hleft : ∀ e, k.Sim (fun _ _ => True) (Eval.emit e) (pure ()) :=
    fun e _ _ s t _ hst => ⟨(), t, rfl, trivial, hst.cells, hst.cancelled, hst.calls, hst.readings,
      hst.built⟩
  have hright : ∀ e, k.Sim (fun _ _ => True) (pure ()) (Eval.emit e) :=
    fun e _ _ s t _ hst => ⟨(), t.emit e, rfl, trivial, hst.cells, hst.cancelled, hst.calls,
      hst.readings, hst.built⟩
  unfold noteLowered
  cases StackBudget.lowered? {} m with
  | none =>
    cases StackBudget.lowered? {} m' with
    | none => exact .pure trivial
    | some e' => exact hright e'
  | some e =>
    cases StackBudget.lowered? {} m' with
    | none => exact hleft e
    | some e' => exact .emit e e'

theorem openScope_sim (hfaults : ∀ f, k.faults f f) (m m' : Int) (timeout : Option Timeout)
    (watched : Bool) :
    k.Sim (fun a b => ∃ deadline, a = ⟨.ofRequested m, deadline, watched⟩ ∧
        b = ⟨.ofRequested m', deadline, watched⟩)
      (openScope m timeout watched) (openScope m' timeout watched) := by
  refine .bind (noteLowered_sim m m') fun _ _ _ => ?_
  cases timeout with
  | none => exact .pure ⟨none, rfl, rfl⟩
  | some t =>
    refine .bind .readClock fun now now' hnow => ?_
    subst hnow
    refine .bind (.ofExcept fun f _ => hfaults f) fun seconds seconds' hseconds => ?_
    subst hseconds
    exact .pure ⟨_, rfl, rfl⟩

theorem conclude_sim {p q : Parser} (o : Outcome) :
    k.Sim (fun a b => b = a) (p.conclude o) (q.conclude o) := by
  cases o with
  | success v n => exact .pure rfl
  | failure f => exact .bind (.emit _ _) fun _ _ _ => .pure rfl

/-- Two runs over the same source that may differ in their limits on nested
    delegations. -/
theorem run_sim (hfaults : ∀ f, k.faults f f) {S : Option Scope → Option Scope → Prop}
    {p q : Parser} {source : Source}
    (hp : Sim { k with scopes := S } (fun a b => b = a) (p.fn (.start source))
      (q.fn (.start source)))
    (o : RunOptions) (m : Int)
    (hS : ∀ deadline, S (some ⟨.ofRequested o.maxDepth, deadline, o.watched⟩)
      (some ⟨.ofRequested m, deadline, o.watched⟩)) :
    k.Sim (fun a b => b = a) (p.run o source) (q.run { o with maxDepth := m } source) := by
  have hrejects : RunOptions.rejects { o with maxDepth := m } source.size =
      o.rejects source.size := rfl
  unfold Parser.run
  rw [hrejects]
  split
  · exact .bind (.fault (hfaults _)) fun _ _ (h : False) => h.elim
  · dsimp only
    refine .bind (openScope_sim hfaults _ _ _ _) ?_
    rintro _ _ ⟨deadline, rfl, rfl⟩
    refine .bind (.emit _ _) fun _ _ _ => ?_
    refine .bind (.closing (.within hp (hS deadline)) _ _) fun outcome outcome' ho => ?_
    subst ho
    exact conclude_sim (outcome'.whole o)

/-- The comparison inside two runs that are the same. -/
def inside (parts : Parts) : Comparison := { ambient parts with scopes := Eq }

theorem inside_lawful (parts : Parts) : (inside parts).Lawful :=
  .of_same (fun f => f.shift_zero.symm) rfl

theorem inside_allows (parts : Parts) : (inside parts).Allows := .of_here rfl fun _ => rfl

theorem runNested_sim (parts : Parts) (rules : Rules) (runs : Nat) :
    Runs parts (Grammar.runNested rules.ruleName runs) := by
  induction runs with
  | zero =>
    intro o g text _
    exact .fault rfl
  | succ n ih =>
    intro o g text hg
    have hlinks : (inside parts).Linked _ _ :=
      links_sim (inside_lawful parts) (inside_allows parts) (fun _ _ h => h.symm) ih
        (fun _ _ => rfl) rules o.allowance
    have hp := denote_sim (inside_lawful parts) (inside_allows parts) hlinks g hg
    exact run_sim (fun _ => rfl) (hp.here rfl _) o o.maxDepth fun _ => rfl

end Comparison

end Descent
