-- SUMMARY: Names, descriptions and mapping functions do not influence what is recognised.
import Descent.Proofs.Likeness

/-! # Recognition

Rules, delegations and runs do in the outline of an evaluation what they do in the
evaluation itself, since the parsers of a grammar do (`Descent.Proofs.Likeness`). Two
grammars with the same outline are compared with the outline that they share:
`Grammar.recognition_outline`. -/

namespace Descent

namespace Blur

variable {α β : Type} {k : Blur} {parts : Parts} {R : α → β → Prop}

/-! ## Rules -/

section Rules

variable {runInner runInner' : RunGrammar}

/-- Runs of a grammar and of its outline end alike. -/
def Runs (k : Blur) (parts : Parts) (runInner runInner' : RunGrammar) : Prop :=
  ∀ o (g : Grammar) text, g.Uses parts →
    k.Sim parts k.Same (runInner o g text) (runInner' o (g.outline k) text)

/-- A builder hands back a parser, and the builder of the outline its outline, or both hand
    back the same thing. -/
inductive SameBuilt (k : Blur) (parts : Parts) : Grammar ⊕ Plain → Grammar ⊕ Plain → Prop
  | parser {g : Grammar} (h : g.Uses parts) : SameBuilt k parts (.inl g) (.inl (g.outline k))
  | plain (p : Plain) : SameBuilt k parts (.inr p) (.inr p)

theorem build_sim (hrun : k.Runs parts runInner runInner') (rule : Rule) (b : Body)
    (hb : b.Uses parts) :
    k.Sim parts (k.SameBuilt parts) (b.build runInner rule)
      ((b.outline k).build runInner' rule) := by
  induction b with
  | grammar g => exact .pure (.parser hb)
  | plain p => exact .pure (.plain p)
  | raise f => exact .raise rfl
  | run used source next ih =>
    exact .bind (hrun {} (.ref used) source hb.2.1) fun _ _ _ => ih hb.2.2
  | tryRun used source next ih =>
    refine .bind (.attempt (hrun {} (.ref used) source hb.2.1)) fun r r' h => ?_
    cases h with
    | answer _ => exact ih hb.2.2
    | @fault f f' hf =>
      have hclass : f.errorClass = f'.errorClass := congrArg Prod.fst hf
      have hgrammar : f'.isGrammar = f.isGrammar := by
        rw [Fault.isGrammar, Fault.isGrammar, hclass]
      dsimp only
      rw [hgrammar]
      split
      · exact .bind (.emit _ _) fun _ _ _ => ih hb.2.2
      · exact .raise hf

theorem breakRule_sim (rule : Rule) (d d' : Diagnostic) (cause cause' : Option Fault) :
    k.Sim parts R (breakRule rule d cause) (breakRule rule d' cause') := by
  refine .bind (.modify fun _ _ hst => hst.setCell rule (.failed _ _ _ _) nofun) fun _ _ _ => ?_
  exact .raise ((Fault.outline_grammar _ _).trans (Fault.outline_grammar _ _).symm)

/-- Where the one evaluation finds a parser, the other one finds its outline. -/
theorem resolve_sim (hrun : k.Runs parts runInner runInner') {r : Rule} (hr : parts.rule r) :
    k.Sim parts (fun g g' => g' = g.outline k ∧ g.Uses parts) (resolve runInner r)
      (resolve runInner' r) := by
  have hbuild : k.Sim parts (fun g g' => g' = g.outline k ∧ g.Uses parts) (buildRule runInner r)
      (buildRule runInner' r) := by
    refine .bind .ask fun env env' henv => ?_
    have hbody : (env'.rules r).body = (env.rules r).body.outline k := by
      rw [henv.rules]
      rfl
    rw [hbody]
    refine .bind (.modify fun _ _ hst => hst.setCell r .building nofun) fun _ _ _ => ?_
    refine .bind (.emit _ _) fun _ _ _ => ?_
    refine .bind (.attempt (build_sim hrun r _ (henv.use r hr))) fun b b' h => ?_
    cases h with
    | fault hf => exact .bind (.emit _ _) fun _ _ _ => breakRule_sim _ _ _ _ _
    | answer h =>
      cases h with
      | plain p => exact .bind (.emit _ _) fun _ _ _ => breakRule_sim _ _ _ _ _
      | @parser g hg =>
        refine .bind (.emit _ _) fun _ _ _ => ?_
        refine .bind (.modify fun _ _ hst => hst.setCell r (.built g) ?_) fun _ _ _ =>
          .pure ⟨rfl, hg⟩
        rintro _ ⟨⟩
        exact hg
  refine .bind .get fun s t hst => ?_
  have hcell := hst.cells r
  have hused := hst.built r
  generalize s.cells r = cell, t.cells r = cell' at hcell hused ⊢
  cases hcell with
  | unbuilt => exact hbuild
  | building =>
    refine .bind .ask fun env env' henv => .raise ?_
    exact (Fault.outline_grammar _ _).trans (Fault.outline_grammar _ _).symm
  | built g => exact .pure ⟨rfl, hused g hr rfl⟩
  | failed => exact .raise ((Fault.outline_grammar _ _).trans (Fault.outline_grammar _ _).symm)

/-! ## Delegations -/

theorem deeper_sim {x : Eval α} {y : Eval β} (hx : k.Sim parts R x y) (r : Rule)
    (position : Nat) : k.Sim parts R (deeper r position x) (deeper r position y) := by
  refine .bind .ask fun env env' henv => ?_
  rw [henv.scope]
  cases env.scope with
  | none => exact hx
  | some scope => exact .bind (.emit _ _) fun _ _ _ => .closing (.within hx _) _ _

theorem refuse_sim (r : Rule) (position : Nat) :
    k.Sim parts R (refuse r position) (refuse r position) := by
  refine .bind .ask fun env env' henv => ?_
  rw [henv.scope]
  cases env.scope with
  | none => exact .raise rfl
  | some scope => exact .bind (.emit _ _) fun _ _ _ => .raise rfl

theorem links_sim (hk : k.Lawful parts) (hrun : k.Runs parts runInner runInner') (rules : Rules)
    (allowance : Nat) :
    k.Linked parts (rules.links runInner allowance)
      ((rules.outline k).links runInner' allowance) := by
  induction allowance with
  | zero =>
    intro r hr c
    refine .bind (resolve_sim hrun hr) fun _ _ _ => ?_
    exact .bind (.checkpoint _) fun _ _ _ => refuse_sim r c.pos
  | succ n ih =>
    intro r hr c
    refine .bind (resolve_sim hrun hr) ?_
    rintro g _ ⟨rfl, hg⟩
    exact .bind (.checkpoint _) fun _ _ _ => deeper_sim (denote_sim hk ih g hg c) r c.pos

end Rules

/-! ## Runs -/

theorem openScope_sim (maxDepth : Int) (timeout : Option Timeout) (watched : Bool) :
    k.Sim parts (fun a b => b = a) (openScope maxDepth timeout watched)
      (openScope maxDepth timeout watched) := by
  have hnote : k.Sim parts (fun _ _ => True) (noteLowered maxDepth) (noteLowered maxDepth) := by
    unfold noteLowered
    cases StackBudget.lowered? {} maxDepth with
    | none => exact .pure trivial
    | some e => exact .emit e e
  refine .bind hnote fun _ _ _ => ?_
  cases timeout with
  | none => exact .pure rfl
  | some t =>
    refine .bind .readClock fun now now' hnow => ?_
    subst hnow
    refine .bind (.ofExcept (R := fun a b => b = a) _ fun _ => rfl) fun seconds _ h => ?_
    subst h
    exact .pure rfl

theorem Same.whole {o o' : Outcome} (h : k.Same o o') (options : RunOptions) :
    k.Same (o.whole options) (o'.whole options) := by
  cases h with
  | failure hf => exact .failure hf
  | success n hv =>
    unfold Outcome.whole
    dsimp only
    split
    · exact .refl k _
    · exact .success n hv

theorem conclude_sim {p q : Parser} {o o' : Outcome} (h : k.Same o o') :
    k.Sim parts k.Same (p.conclude o) (q.conclude o') := by
  cases h with
  | success n hv => exact .pure (.success n hv)
  | failure hf => exact .bind (.emit _ _) fun _ _ _ => .pure (.failure hf)

theorem run_sim {p q : Parser} (hp : k.Parsers parts p q) (o : RunOptions) (source : Source) :
    k.Sim parts k.Same (p.run o source) (q.run o source) := by
  unfold Parser.run
  split
  · exact .bind (R := fun _ _ => False) (.raise rfl) fun _ _ h => h.elim
  · refine .bind (openScope_sim _ _ _) fun scope _ h => ?_
    subst h
    refine .bind (.emit _ _) fun _ _ _ => ?_
    refine .bind (.closing (.within (hp _) _) _ _) fun out out' ho => ?_
    exact conclude_sim (ho.whole o)

theorem runNested_sim (hk : k.Lawful parts) (rules : Rules) (runs : Nat) :
    k.Runs parts (Grammar.runNested rules.ruleName runs)
      (Grammar.runNested (rules.outline k).ruleName runs) := by
  induction runs with
  | zero => exact fun o g text _ => .raise rfl
  | succ n ih =>
    intro o g text hg
    exact run_sim (denote_sim hk (links_sim hk ih rules o.allowance) g hg) o _

theorem parser_sim (hk : k.Lawful parts) {g : Grammar} (hg : g.Uses parts) {env env' : Env}
    (henv : k.Envs parts env env') (allowance : Nat) :
    k.Parsers parts (g.parser env allowance) ((g.outline k).parser env' allowance) := by
  obtain ⟨rules, scope, clock⟩ := env'
  obtain ⟨rfl, rfl, rfl, -⟩ := henv
  exact denote_sim hk (links_sim hk (runNested_sim hk env.rules stackLimit) env.rules allowance)
    g hg

theorem call_sim (hk : k.Lawful parts) {g : Grammar} (hg : g.Uses parts) (c : Cursor) :
    k.Sim parts k.Same (g.call c) ((g.outline k).call c) := by
  refine .bind .ask fun env env' henv => ?_
  rw [henv.scope]
  exact parser_sim hk hg henv _ c

theorem grammar_run_sim (hk : k.Lawful parts) {g : Grammar} (hg : g.Uses parts) (o : RunOptions)
    (source : Source) : k.Sim parts k.Same (g.run o source) ((g.outline k).run o source) :=
  .bind .ask fun _ _ henv => run_sim (parser_sim hk hg henv _) o source

end Blur

/-! ## Two grammars -/

/-- A reply that is a value is the same value for every parser. -/
theorem Reply.toValue_congr {reply : Reply} {name name' : String} {v : Value}
    (h : reply.toValue name = .ok v) : reply.toValue name' = .ok v := by
  cases reply with
  | value w => exact h
  | fault f => cases h
  | plain p =>
    unfold toValue at h ⊢
    cases hp : p.value? with
    | none =>
      simp only [hp] at h
      cases h
    | some w =>
      simp only [hp] at h ⊢
      exact h

namespace Blur

section Laws

variable {parts : Parts}
  (htotal : ∀ fn, parts.mapping fn → ∀ name v, ∃ w, (fn v).toValue name = .ok w)
  (hruns : ¬ parts.mappingRuns)

include htotal hruns

theorem all_lawful : Blur.all.Lawful parts where
  list := fun _ _ _ => rfl
  mapping := by
    intro fn hfn v w _ name name'
    obtain ⟨v', hv'⟩ := htotal fn hfn name v
    exact ⟨v', w, hv', rfl, rfl⟩
  runs := hruns

theorem labels_lawful : Blur.labels.Lawful parts where
  list := by
    intro vs ws h
    rw [labels, List.map_id, List.map_id] at h
    rw [h]
  mapping := by
    rintro fn hfn v _ rfl name name'
    obtain ⟨v', hv'⟩ := htotal fn hfn name v
    exact ⟨v', v', hv', Reply.toValue_congr hv', rfl⟩
  runs := hruns

end Laws

/-- Two grammars with the same outline, which use rules with the same outline, and of which
    as much has been built. -/
structure Alike (k : Blur) (parts : Parts) (env env' : Env) (s s' : State) (g g' : Grammar) :
    Prop where
  rules : env.rules.outline k = env'.rules.outline k
  grammar : g.outline k = g'.outline k
  states : ∃ t, s.Outlined k parts t ∧ s'.Outlined k parts t

/-- The grammars answer alike at every cursor, and so do all their runs. -/
structure Recognise (k : Blur) (env env' : Env) (s s' : State) (g g' : Grammar) : Prop where
  call : ∀ c, Matched k.Same ((g.call c).run env s).1 ((g'.call c).run env' s').1
  run : ∀ o source, Matched k.Same ((g.run o source).run env s).1 ((g'.run o source).run env' s').1

theorem Alike.recognise {k : Blur} {parts : Parts} (hk : k.Lawful parts) {env env' : Env}
    (hclock : env'.clock = env.clock) (hscope : env'.scope = env.scope)
    (hrules : env.rules.Use parts) (hrules' : env'.rules.Use parts) {g g' : Grammar}
    (hg : g.Uses parts) (hg' : g'.Uses parts) {s s' : State}
    (h : k.Alike parts env env' s s' g g') : k.Recognise env env' s s' g g' := by
  obtain ⟨t, hst, hst'⟩ := h.states
  let outlined : Env := { env with rules := env.rules.outline k }
  have henv : k.Envs parts env outlined := ⟨rfl, rfl, rfl, hrules⟩
  have henv' : k.Envs parts env' outlined := ⟨h.rules, hclock.symm, hscope.symm, hrules'⟩
  constructor
  · intro c
    have hleft := (call_sim hk hg c env outlined s t henv hst).1
    have hright := (call_sim hk hg' c env' outlined s' t henv' hst').1
    rw [← h.grammar] at hright
    exact Same.join_matched hleft hright
  · intro o source
    have hleft := (grammar_run_sim hk hg o source env outlined s t henv hst).1
    have hright := (grammar_run_sim hk hg' o source env' outlined s' t henv' hst').1
    rw [← h.grammar] at hright
    exact Same.join_matched hleft hright

end Blur

/-- Names, descriptions and mapping functions do not influence recognition. Two grammars of
    the same shape, whose mapping functions always answer with values, both match and end at
    the same cursor, or fail with failures that differ in their texts only, or are both
    stopped by faults of one class at one position. If the mapping functions are the same
    too, so are the values. -/
theorem Grammar.recognition_outline {parts : Parts}
    (htotal : ∀ fn, parts.mapping fn → ∀ name v, ∃ w, (fn v).toValue name = .ok w)
    (hruns : ¬ parts.mappingRuns) {env env' : Env} (hclock : env'.clock = env.clock)
    (hscope : env'.scope = env.scope) (hrules : env.rules.Use parts)
    (hrules' : env'.rules.Use parts) {g g' : Grammar} (hg : g.Uses parts) (hg' : g'.Uses parts)
    (s s' : State) :
    (Blur.all.Alike parts env env' s s' g g' → Blur.all.Recognise env env' s s' g g') ∧
      (Blur.labels.Alike parts env env' s s' g g' → Blur.labels.Recognise env env' s s' g g') :=
  ⟨fun h => h.recognise (Blur.all_lawful htotal hruns) hclock hscope hrules hrules' hg hg',
    fun h => h.recognise (Blur.labels_lawful htotal hruns) hclock hscope hrules hrules' hg hg'⟩

/-- The letter `x` in any number of parentheses, under other names. -/
def Rules.renamed : Rules := fun _ => {
  name := "group"
  body := .grammar
    (.named "choice" (.either (.between (.char '(') (.ref "nested") (.char ')')) (.char 'x'))) }

/-- Under other names, and with another mapping function, the innermost parenthesis is too
    deep just the same, and under other names alone the values are the same as well. -/
theorem Grammar.recognition_outline_renamed :
    let env (rules : Rules) : Env := { rules := rules }
    let g : Grammar := .map (.ref "nested") Mapping.upper
    let g' : Grammar := .named "length" (.map (.ref "nested") Mapping.size)
    Blur.all.Recognise (env .nested) (env .renamed) {} {} g g' ∧
      Blur.labels.Recognise (env .nested) (env .renamed) {} {} g g := by
  intro env g g'
  let parts : Parts := {
    mapping := fun fn => ∀ name v, ∃ w, (fn v).toValue name = .ok w
    mappingRuns := False }
  have hrules : (env .nested).rules.Use parts := Rules.nested_use _ fun _ => trivial
  have hrules' : (env .renamed).rules.Use parts := fun _ _ => ⟨⟨trivial, trivial, trivial⟩, trivial⟩
  have hg : g.Uses parts := ⟨trivial, fun _ _ => ⟨_, rfl⟩⟩
  have hg' : g'.Uses parts := ⟨trivial, fun _ _ => ⟨_, rfl⟩⟩
  have hclock : (env .renamed).clock = (env .nested).clock := rfl
  have hscope : (env .renamed).scope = (env .nested).scope := rfl
  have hinit (k : Blur) := State.Outlined.init k parts
  constructor
  · exact (Grammar.recognition_outline (fun _ h => h) id hclock hscope hrules hrules' hg hg'
      {} {}).1 ⟨rfl, rfl, {}, hinit _, hinit _⟩
  · exact (Grammar.recognition_outline (fun _ h => h) id hclock hscope hrules hrules' hg hg
      {} {}).2 ⟨rfl, rfl, {}, hinit _, hinit _⟩

end Descent
