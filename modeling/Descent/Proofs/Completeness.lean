-- SUMMARY: Whatever a grammar yields, an evaluation that may nest deeply enough answers.
import Mathlib.Order.Filter.AtTopBot.Basic
import Descent.Proofs.Soundness

/-! # Completeness of evaluation

An evaluation can only miss what a grammar yields when a limit stops it or a rule
cannot be built. Where time and cancellation are no limits and the builders only
construct parsers, the number of open delegations is the one limit left, and for
each answer some number is enough: this is `Yields.eventually_returns`. -/

namespace Descent

open Filter

namespace Eval

variable {α β : Type} {K : Env → State → Prop} {Q : α → Prop} {R : β → Prop} {x : Eval α}

/-! ## Computations that answer -/

/-- In every situation of a kind the computation answers as described and ends
    in a situation of the same kind. -/
def Returns (K : Env → State → Prop) (Q : α → Prop) (x : Eval α) : Prop :=
  ∀ env s, K env s → ∃ a s', x.run env s = (.ok a, s') ∧ Q a ∧ K env s'

theorem Returns.pure {a : α} (h : Q a) : Returns K Q (pure a) :=
  fun _ s hs => ⟨a, s, rfl, h, hs⟩

theorem Returns.bind {f : α → Eval β} (hx : Returns K Q x)
    (hf : ∀ a, Q a → Returns K R (f a)) : Returns K R (x >>= f) := by
  intro env s hs
  obtain ⟨a, s', hrun, ha, hs'⟩ := hx env s hs
  rw [run_bind_of_ok hrun]
  exact hf a ha env s' hs'

/-- After a computation with a known answer, the rest goes on with that answer. -/
theorem Returns.next {f : α → Eval β} {a : α} (hx : Returns K (· = a) x)
    (hf : Returns K R (f a)) : Returns K R (x >>= f) := by
  refine hx.bind ?_
  rintro _ rfl
  exact hf

theorem Returns.ofExcept {r : Except Fault α} {a : α} (h : r = .ok a) :
    Returns K (· = a) (ofExcept r) :=
  fun _ s hs => ⟨a, s, by rw [run_ofExcept, h], rfl, hs⟩

theorem Returns.mono {Q' : α → Prop} (hx : Returns K Q x) (h : ∀ a, Q a → Q' a) :
    Returns K Q' x := by
  intro env s hs
  obtain ⟨a, s', hrun, ha, hs'⟩ := hx env s hs
  exact ⟨a, s', hrun, h a ha, hs'⟩

/-- What follows without effect can be taken off the end of a computation. -/
theorem Returns.of_map {f : α → β} (hx : Returns K R (x >>= fun a => Pure.pure (f a))) :
    Returns K (fun a => R (f a)) x := by
  intro env s hs
  obtain ⟨b, s', hrun, hb, hs'⟩ := hx env s hs
  rw [run_bind] at hrun
  cases h : x.run env s with
  | mk r s₁ =>
    rw [h] at hrun
    cases r with
    | error e => cases hrun
    | ok a =>
      cases hrun
      exact ⟨a, s', rfl, hb, hs'⟩

theorem Returns.map {f : α → β} (hx : Returns K (fun a => R (f a)) x) :
    Returns K R (x >>= fun a => Pure.pure (f a)) :=
  hx.bind fun _ ha => .pure ha

/-- A computation that answers whatever another one answers. -/
theorem Returns.of_run {y : Eval α} (hx : Returns K Q x)
    (h : ∀ env s a s', x.run env s = (.ok a, s') → y.run env s = (.ok a, s')) :
    Returns K Q y := by
  intro env s hs
  obtain ⟨a, s', hrun, ha, hs'⟩ := hx env s hs
  exact ⟨a, s', h env s a s' hrun, ha, hs'⟩

end Eval

/-! ## Loops

The values of earlier rounds are only put in front of those of later ones. -/

namespace Parser

/-- A choice whose branches all failed would have failed with them after other
    failed branches, too. -/
theorem run_tryEach_failure {ps : List Parser} {failed : List Failure} {c : Cursor} {env : Env}
    {s s' : State} {g : Failure} (h : (tryEach failed ps c).run env s = (.ok (.failure g), s')) :
    ∃ bs, Failure.alternatives? (failed.reverse ++ bs) = some g ∧
      ∀ before, (tryEach before ps c).run env s =
        (noneMatched (before.reverse ++ bs)).run env s' := by
  induction ps generalizing failed s with
  | nil =>
    refine ⟨[], ?_, fun before => ?_⟩
    · simp only [tryEach, noneMatched] at h
      rw [List.append_nil]
      split at h
      · rename_i hh
        cases h
        exact hh
      · cases h
    · have hs : s' = s := by
        simp only [tryEach, noneMatched] at h
        split at h <;> cases h
        rfl
      rw [List.append_nil, hs]
      rfl
  | cons p ps ih =>
    simp only [tryEach, Eval.run_bind] at h ⊢
    cases hp : (p.fn c).run env s with
    | mk r s₁ =>
      rw [hp] at h
      obtain e | ⟨v, n⟩ | f := r
      · cases h
      · cases h
      · -- The failure of this branch comes before those of the others.
        obtain ⟨bs, hg, hbs⟩ := ih h
        refine ⟨f :: bs, ?_, fun before => ?_⟩
        · simp [← hg]
        · dsimp only
          simp [hbs]

theorem run_tryEach_success {ps : List Parser} {failed : List Failure} {c n : Cursor} {env : Env}
    {s s' : State} {v : Value}
    (h : (tryEach failed ps c).run env s = (.ok (.success v n), s')) (before : List Failure) :
    (tryEach before ps c).run env s = (.ok (.success v n), s') := by
  induction ps generalizing failed before s with
  | nil =>
    simp only [tryEach, noneMatched] at h
    split at h <;> cases h
  | cons p ps ih =>
    simp only [tryEach, Eval.run_bind] at h ⊢
    cases hp : (p.fn c).run env s with
    | mk r s₁ =>
      rw [hp] at h
      obtain e | ⟨v, n⟩ | f := r
      · cases h
      · exact h
      · exact ih h _

/-- A choice of several parsers answers as the first one or else the choice of
    the others does. -/
theorem run_choice_cons {p q : Parser} {qs : List Parser} {c : Cursor} {env : Env}
    {s s' : State} {o : Outcome}
    (h : ((p.either (q.choice qs)).fn c).run env s = (.ok o, s')) :
    ((p.choice (q :: qs)).fn c).run env s = (.ok o, s') := by
  simp only [either, choice, Eval.run_bind] at h
  change (tryEach [] (p :: q :: qs) c).run env s = _
  rw [tryEach, Eval.run_bind]
  cases hp : (p.fn c).run env s with
  | mk r s₁ =>
    rw [hp] at h
    obtain e | ⟨v, n⟩ | f := r
    · cases h
    · exact h
    · -- The other branches are tried after a failure.
      simp only [Eval.run_bind] at h
      cases hq : (tryEach [] (q :: qs) c).run env s₁ with
      | mk r s₂ =>
        rw [hq] at h
        obtain e | ⟨v, n⟩ | g := r
        · cases h
        · cases h
          exact run_tryEach_success hq _
        · obtain ⟨bs, hg, hbs⟩ := run_tryEach_failure hq
          have happend : Failure.alternatives? [f, g] = Failure.alternatives? ([f].reverse ++ bs) :=
            Failure.alternatives?_append [f] hg
          dsimp only at h ⊢
          simp [hbs, ← h, noneMatched, happend]

/-- What the elements of a sequence answer after others, given what they answer
    by themselves. -/
def after (index : Nat) (values : List Value) : Outcome → Outcome
  | .success (.list vs) n => .success (.list (values.reverse ++ vs)) n
  | .success v n => .success v n
  | .failure f => .failure { f with index := f.index.map (· + index) }

theorem after_after (index : Nat) (values : List Value) (v : Value) (o : Outcome) :
    after index values (after 1 [v] o) = after (index + 1) (v :: values) o := by
  cases o with
  | success w n => cases w <;> simp [after]
  | failure f =>
    have hindex (i : Int) : i + ((1 : Nat) : Int) + index = i + ((index + 1 : Nat) : Int) := by
      omega
    simp only [after, Option.map_map, Function.comp_def, hindex]

theorem seqFrom_eq (index : Nat) (values : List Value) (ps : List Parser) (c : Cursor) :
    seqFrom index values ps c = seqFrom 0 [] ps c >>= fun o => pure (after index values o) := by
  induction ps generalizing index values c with
  | nil => simp only [seqFrom, Eval.pure_bind, after, List.reverse_nil, List.append_nil]
  | cons p ps ih =>
    simp only [seqFrom, Eval.bind_assoc]
    congr 1
    funext o
    cases o with
    | failure f => simp [Eval.pure_bind, after, Failure.ofElement]
    | success v n =>
      dsimp only
      rw [ih (index + 1), ih (0 + 1), Eval.bind_assoc]
      simp only [Eval.pure_bind, Nat.zero_add, after_after]

theorem repeatFrom_values (p : Parser) (c : Cursor) (values : List Value) :
    p.repeatFrom c values =
      p.repeatFrom c [] >>= fun r => pure { r with values := values.reverse ++ r.values } := by
  induction hr : c.remaining using Nat.strongRecOn generalizing c values with
  | ind r ih =>
    subst hr
    rw [repeatFrom_eq p c values, repeatFrom_eq p c [], Eval.bind_assoc]
    congr 1
    funext _
    rw [Eval.bind_assoc]
    congr 1
    funext o
    cases o with
    | failure f => simp only [Eval.pure_bind, List.reverse_nil, List.append_nil]
    | success v n =>
      dsimp only
      split
      · rename_i hlt
        rw [ih n.remaining hlt n (v :: values) rfl, ih n.remaining hlt n [v] rfl, Eval.bind_assoc]
        congr 1
        funext r
        simp only [Eval.pure_bind, List.reverse_cons, List.reverse_nil, List.nil_append,
          List.append_assoc]
      · rw [Eval.bind_assoc]
        simp only [Eval.pure_bind, List.reverse_cons, List.reverse_nil, List.nil_append]

end Parser

/-! ## Evaluations that only the depth limit can stop -/

/-- The builders of the rules that may be used only construct parsers. -/
def Rules.Construct (rules : Rules) (parts : Parts) : Prop :=
  ∀ r, parts.rule r → ∃ g : Grammar, (rules r).body = .grammar g ∧ g.Uses parts

theorem Rules.Construct.use {rules : Rules} {parts : Parts} (h : rules.Construct parts) :
    rules.Use parts := by
  intro r hr
  obtain ⟨g, hbody, hg⟩ := h r hr
  rw [hbody]
  exact hg

/-- A run is active that has no deadline and was not cancelled, and none of the
    rules is broken or being built. -/
structure Unhindered (rules : Rules) (parts : Parts) (env : Env) (s : State) : Prop where
  envRules : env.rules = rules
  scope : ∃ scope, env.scope = some scope ∧ scope.deadline = none ∧
    (scope.watched && s.cancelled) = false
  cells : ∀ r g, parts.rule r → (rules r).body = .grammar g →
    s.cells r = .unbuilt ∨ s.cells r = .built g

section Engine

variable {rules : Rules} {parts : Parts}

theorem Unhindered.emit {env : Env} {s : State} (h : Unhindered rules parts env s) (e : Event) :
    Unhindered rules parts env (s.emit e) := ⟨h.envRules, h.scope, h.cells⟩

theorem emit_returns (e : Event) :
    Eval.Returns (Unhindered rules parts) (· = ()) (Eval.emit e) :=
  fun _ s hs => ⟨(), s.emit e, rfl, rfl, hs.emit e⟩

theorem checkpoint_returns (position : Int) :
    Eval.Returns (Unhindered rules parts) (· = ()) (checkpoint position) := by
  intro env s hs
  obtain ⟨scope, hscope, hdeadline, hcancelled⟩ := hs.scope
  refine ⟨(), s.emit (.checkpoint position), ?_, rfl, hs.emit _⟩
  have hcancelled' : (scope.watched && (s.emit (.checkpoint position)).cancelled) = false :=
    hcancelled
  simp only [checkpoint, Eval.run_bind, Eval.run_ask, hscope, Eval.run_emit, Eval.run_get,
    hcancelled', hdeadline, Bool.false_eq_true, if_false, Eval.run_pure]

/-! ### Repetitions -/

section Repetitions

variable {p : Parser} {c n : Cursor} {v : Value}

theorem repeated_none_returns {f : Failure}
    (hp : Eval.Returns (Unhindered rules parts) (· = .failure f) (p.fn c)) :
    Eval.Returns (Unhindered rules parts) (· = ⟨[], c, some f⟩) (p.repeated c) := by
  rw [Parser.repeated_eq, Parser.repeatFrom_eq]
  exact .next (checkpoint_returns _) (.next hp (.pure rfl))

theorem repeated_still_returns
    (hp : Eval.Returns (Unhindered rules parts) (· = .success v n) (p.fn c))
    (hlt : ¬ n.remaining < c.remaining) :
    Eval.Returns (Unhindered rules parts) (· = ⟨[v], c, none⟩) (p.repeated c) := by
  rw [Parser.repeated_eq, Parser.repeatFrom_eq]
  refine .next (checkpoint_returns _) (.next hp ?_)
  simp only [if_neg hlt]
  exact .next (emit_returns _) (.pure rfl)

theorem repeated_more_returns {vs : List Value} {m : Cursor}
    (hp : Eval.Returns (Unhindered rules parts) (· = .success v n) (p.fn c))
    (hlt : n.remaining < c.remaining)
    (hm : Eval.Returns (Unhindered rules parts) (· = .success (.list vs) m) (p.many.fn n)) :
    Eval.Returns (Unhindered rules parts) (fun r => r.values = v :: vs ∧ r.stop = m)
      (p.repeated c) := by
  rw [Parser.repeated_eq, Parser.repeatFrom_eq]
  refine .next (checkpoint_returns _) (.next hp ?_)
  simp only [if_pos hlt]
  rw [Parser.repeatFrom_values]
  refine .map (hm.of_map.mono fun r hr => ?_)
  cases hr
  exact ⟨rfl, rfl⟩

end Repetitions

theorem Predicate.apply_returns {p : Predicate} {ch : Char} {b : Bool} (ht : p.trigger = none)
    (hb : p.test ch = .ok b) : Eval.Returns (Unhindered rules parts) (· = b) (p.apply ch) := by
  intro env s hs
  refine ⟨b, s, ?_, rfl, hs⟩
  simp only [Predicate.apply, ht, hb, Eval.run_ofExcept]

theorem resolve_returns (runInner : RunGrammar) {r : Rule} (hr : parts.rule r) {g : Grammar}
    (hg : (rules r).body = .grammar g) :
    Eval.Returns (Unhindered rules parts) (· = g) (resolve runInner r) := by
  intro env s hs
  have hbody : (env.rules r).body = .grammar g := by rw [hs.envRules, hg]
  rcases hs.cells r g hr hg with hcell | hcell
  · let started := (s.setCell r .building).emit (.building r)
    let ended := (started.emit (.built (env.ruleName r) (g.name env.ruleName))).setCell r (.built g)
    refine ⟨g, ended, ?_, rfl, hs.envRules, hs.scope, ?_⟩
    · simp only [resolve, Eval.run_bind, Eval.run_get, hcell, buildRule, Eval.run_ask,
        Eval.run_modify, Eval.run_emit, Eval.run_attempt, hbody, Body.build, Eval.run_pure, ended,
        started]
    · intro r' g' hr' hg'
      simp only [ended, started, State.setCell, State.emit]
      split
      · rename_i heq
        subst heq
        cases hg.symm.trans hg'
        exact .inr rfl
      · exact hs.cells r' g' hr' hg'
  · refine ⟨g, s, ?_, rfl, hs⟩
    simp only [resolve, Eval.run_bind, Eval.run_get, hcell, Eval.run_pure]

theorem deeper_returns {α : Type} {Q : α → Prop} {x : Eval α}
    (hx : Eval.Returns (Unhindered rules parts) Q x) (rule : Rule) (position : Nat) :
    Eval.Returns (Unhindered rules parts) Q (deeper rule position x) := by
  intro env s hs
  obtain ⟨scope, hscope, hdeadline, hcancelled⟩ := hs.scope
  let inner : Env := { env with scope := some { scope with guard := scope.guard.enter } }
  let opened := s.emit (.opened rule position scope.guard.enter.depth)
  have hinner : Unhindered rules parts inner opened :=
    ⟨hs.envRules, ⟨_, rfl, hdeadline, hcancelled⟩, hs.cells⟩
  obtain ⟨a, s', hrun, ha, hs'⟩ := hx inner opened hinner
  refine ⟨a, s'.emit (.closed rule), ?_, ha, ?_⟩
  · rw [run_deeper hscope, Eval.run_closing, hrun]
  · obtain ⟨_, hscope', hdeadline', hcancelled'⟩ := hs'.scope
    cases hscope'
    exact ⟨hs.envRules, ⟨scope, hscope, hdeadline, hcancelled'⟩, hs'.cells⟩

/-- A rule answers what its parser does when one delegation less may be opened. -/
theorem ref_returns {Q : Outcome → Prop} {r : Rule} {g : Grammar} {runInner : RunGrammar} {n : Nat}
    {c : Cursor}
    (h : Eval.Returns (Unhindered rules parts) Q ((g.denote (rules.links runInner n)).fn c))
    (hr : parts.rule r) (hg : (rules r).body = .grammar g) :
    Eval.Returns (Unhindered rules parts) Q
      (((Grammar.ref r).denote (rules.links runInner (n + 1))).fn c) :=
  .next (resolve_returns runInner hr hg) (.next (checkpoint_returns _) (deeper_returns h _ _))

end Engine

/-! ## Answers -/

namespace Piece

/-- All parts of a piece are allowed. -/
def Uses (parts : Parts) : Piece → Prop
  | .whole g => g.Uses parts
  | .rounds p sep => p.Uses parts ∧ sep.Uses parts

/-- A piece answers at a cursor as given. The rounds of a separated list answer
    with the values of earlier rounds in front. -/
def Returns (K : Env → State → Prop) (links : Links) : Piece → Cursor → Outcome → Prop
  | .whole g, c, o => Eval.Returns K (· = o) ((g.denote links).fn c)
  | .rounds p sep, c, o => ∀ values, Eval.Returns K
      (fun o' => ∀ vs n, o = .success (.list vs) n →
        o' = .success (.list (values.reverse ++ vs)) n)
      ((p.denote links).separatedFrom (sep.denote links) c values)

end Piece

/-- What a piece yields it answers, once enough delegations may be opened. -/
theorem Yields.eventually_returns {rules : Rules} {parts : Parts}
    (htrigger : ∀ p, parts.predicate p → p.trigger = none) (hruns : ¬ parts.mappingRuns)
    (hrules : rules.Construct parts) (runInner : RunGrammar) {x : Piece} {c : Cursor}
    {o : Outcome} (h : Yields rules x c o) (hx : x.Uses parts) :
    ∀ᶠ n in atTop, x.Returns (Unhindered rules parts) (rules.links runInner n) c o := by
  have hname (p : Grammar) (n : Nat) :
      (p.denote (rules.links runInner n)).name = p.name rules.ruleName :=
    Grammar.denote_name _ p
  induction h with
  | char hc =>
    refine .of_forall fun n => .pure ?_
    simp only [hc, if_true]
  | char_end hc =>
    refine .of_forall fun n => .pure ?_
    simp only [hc]
  | char_other hc hne =>
    refine .of_forall fun n => .pure ?_
    simp only [hc, if_neg hne]
  | literal hread htext =>
    refine .of_forall fun n => .pure ?_
    simp only [hread, htext, if_true]
  | literal_end hread =>
    refine .of_forall fun n => .pure ?_
    simp only [hread, Bool.false_eq_true, if_false]
  | literal_other hread htext =>
    refine .of_forall fun n => .pure ?_
    simp only [hread, if_true, if_neg htext]
  | satisfy hc hp =>
    refine .of_forall fun n => ?_
    simp only [Piece.Returns, Grammar.denote, Parser.satisfy, hc]
    exact .next (Predicate.apply_returns (htrigger _ hx) hp) (.pure rfl)
  | satisfy_end hc =>
    refine .of_forall fun n => ?_
    simp only [Piece.Returns, Grammar.denote, Parser.satisfy, hc]
    exact .pure rfl
  | satisfy_other hc hp =>
    refine .of_forall fun n => ?_
    simp only [Piece.Returns, Grammar.denote, Parser.satisfy, hc]
    exact .next (Predicate.apply_returns (htrigger _ hx) hp) (.pure rfl)
  | eof hc =>
    refine .of_forall fun n => .pure ?_
    simp only [hc]
  | eof_rest hc =>
    refine .of_forall fun n => .pure ?_
    simp only [hc]
  | spaces => exact .of_forall fun n => .pure rfl
  | either_first _ ha =>
    filter_upwards [ha hx.1] with n ha
    exact .next ha (.pure rfl)
  | either_second _ _ ha hb =>
    filter_upwards [ha hx.1, hb hx.2] with n ha hb
    exact .next ha (.next hb (.pure rfl))
  | either_none _ _ hh ha hb =>
    filter_upwards [ha hx.1, hb hx.2] with n ha hb
    refine .next ha (.next hb ?_)
    simp only [Parser.noneMatched, hh]
    exact .pure rfl
  | choice_last _ hp =>
    filter_upwards [hp hx.1] with n hp
    exact .next hp (.pure rfl)
  | choice_none _ hh hp =>
    filter_upwards [hp hx.1] with n hp
    refine .next hp ?_
    simp only [Grammar.denoteAll, Parser.tryEach, Parser.noneMatched, List.reverse_singleton, hh]
    exact .pure rfl
  | choice_next _ ih =>
    filter_upwards [ih ⟨hx.1, hx.2⟩] with n ih
    exact ih.of_run fun _ _ _ _ => Parser.run_choice_cons
  | both_first _ ha =>
    filter_upwards [ha hx.1] with n ha
    exact .next ha (.pure rfl)
  | both _ _ ha hb =>
    filter_upwards [ha hx.1, hb hx.2] with n ha hb
    exact .next ha hb
  | absent _ hp =>
    filter_upwards [hp hx] with n hp
    exact .next hp (.pure rfl)
  | absent_found _ hp =>
    filter_upwards [hp hx] with n hp
    refine .next hp (.pure ?_)
    simp [hname]
  | seq_first _ hp =>
    filter_upwards [hp hx.1] with n hp
    exact .next hp (.pure rfl)
  | seq_last _ hp =>
    filter_upwards [hp hx.1] with n hp
    exact .next hp (.pure rfl)
  | seq_next _ _ hp hps =>
    filter_upwards [hp hx.1, hps hx.2] with n hp hps
    refine .next hp ?_
    dsimp only
    rw [Parser.seqFrom_eq]
    exact .next hps (.pure rfl)
  | seq_later _ _ hp hps =>
    filter_upwards [hp hx.1, hps hx.2] with n hp hps
    refine .next hp ?_
    dsimp only
    rw [Parser.seqFrom_eq]
    exact .next hps (.pure rfl)
  | between_opening _ h₁ =>
    filter_upwards [h₁ hx.1] with n h₁
    exact .next h₁ (.pure rfl)
  | between_content _ _ h₁ h₂ =>
    filter_upwards [h₁ hx.1, h₂ hx.2.1] with n h₁ h₂
    exact .next h₁ (.next h₂ (.pure rfl))
  | between_closing _ _ _ h₁ h₂ h₃ =>
    filter_upwards [h₁ hx.1, h₂ hx.2.1, h₃ hx.2.2] with n h₁ h₂ h₃
    exact .next h₁ (.next h₂ (.next h₃ (.pure rfl)))
  | between _ _ _ h₁ h₂ h₃ =>
    filter_upwards [h₁ hx.1, h₂ hx.2.1, h₃ hx.2.2] with n h₁ h₂ h₃
    exact .next h₁ (.next h₂ (.next h₃ (.pure rfl)))
  | token_first _ hp =>
    filter_upwards [hp hx] with n hp
    exact .next hp (.pure rfl)
  | token _ hp =>
    filter_upwards [hp hx] with n hp
    exact .next hp (.pure rfl)
  | many_end _ hp =>
    filter_upwards [hp hx] with n hp
    exact .map ((repeated_none_returns hp).mono fun r hr => by rw [hr])
  | many_still _ hlt hp =>
    filter_upwards [hp hx] with n hp
    exact .map ((repeated_still_returns hp hlt).mono fun r hr => by rw [hr])
  | many_more _ hlt _ hp hm =>
    filter_upwards [hp hx, hm hx] with n hp hm
    refine .map ((repeated_more_returns hp hlt hm).mono ?_)
    rintro r ⟨hvalues, hstop⟩
    simp [hvalues, hstop]
  | @many1_none p c f _ hp =>
    filter_upwards [hp hx] with n hp
    rw [← hname p n]
    exact (repeated_none_returns hp).next (.pure rfl)
  | many1_still _ hlt hp =>
    filter_upwards [hp hx] with n hp
    exact (repeated_still_returns hp hlt).next (.pure rfl)
  | many1_more _ hlt _ hp hm =>
    filter_upwards [hp hx, hm hx] with n hp hm
    refine (repeated_more_returns hp hlt hm).bind fun r hr => ?_
    obtain ⟨values, stop, ended⟩ := r
    obtain ⟨rfl, rfl⟩ := hr
    exact .pure rfl
  | optional _ hp =>
    filter_upwards [hp hx] with n hp
    exact .next hp (.pure rfl)
  | optional_none _ hp =>
    filter_upwards [hp hx] with n hp
    exact .next hp (.pure rfl)
  | rounds_end _ hsep =>
    filter_upwards [hsep hx.2] with n hsep values
    rw [Parser.separatedFrom_eq]
    refine .next (checkpoint_returns _) (.next hsep (.pure ?_))
    rintro vs m ⟨⟩
    simp
  | rounds_back _ _ hsep hp =>
    filter_upwards [hsep hx.2, hp hx.1] with n hsep hp values
    rw [Parser.separatedFrom_eq]
    refine .next (checkpoint_returns _) (.next hsep (.next hp (.pure ?_)))
    rintro vs m ⟨⟩
    simp
  | rounds_still _ _ hlt hsep hp =>
    filter_upwards [hsep hx.2, hp hx.1] with n hsep hp values
    rw [Parser.separatedFrom_eq]
    refine .next (checkpoint_returns _) (.next hsep (.next hp ?_))
    simp only [if_neg hlt]
    refine .pure ?_
    rintro vs m ⟨⟩
    simp
  | rounds_more _ _ hlt _ hsep hp hr =>
    filter_upwards [hsep hx.2, hp hx.1, hr hx] with n hsep hp hr values
    rw [Parser.separatedFrom_eq]
    refine .next (checkpoint_returns _) (.next hsep (.next hp ?_))
    simp only [if_pos hlt]
    refine (hr _).mono fun o' ho' => ?_
    rintro vs m ⟨⟩
    simp [ho' _ _ rfl]
  | sepBy_none _ hp =>
    filter_upwards [hp hx.1] with n hp
    exact .next hp (.pure rfl)
  | sepBy _ _ hp hr =>
    filter_upwards [hp hx.1, hr hx] with n hp hr
    exact .next hp ((hr [_]).mono fun o' ho' => ho' _ _ rfl)
  | sepBy1_none _ hp =>
    filter_upwards [hp hx.1] with n hp
    exact .next hp (.pure rfl)
  | sepBy1 _ _ hp hr =>
    filter_upwards [hp hx.1, hr hx] with n hp hr
    exact .next hp ((hr [_]).mono fun o' ho' => ho' _ _ rfl)
  | map_none _ hp =>
    filter_upwards [hp hx.1] with n hp
    exact .next hp (.pure rfl)
  | map _ hw hp =>
    filter_upwards [hp hx.1] with n hp
    rw [← hname _ n] at hw
    exact .next hp (.next (.pure rfl) (.next (.ofExcept hw) (.pure rfl)))
  | mapRun_none | mapRun => exact absurd hx.1 hruns
  | named _ hp =>
    filter_upwards [hp hx] with n hp
    exact hp
  | mark _ hp =>
    filter_upwards [hp hx] with n hp
    exact .next (emit_returns _) hp
  | ref hg _ ih =>
    obtain ⟨g, hbody, hg'⟩ := hrules _ hx
    rw [hbody] at hg
    cases hg
    obtain ⟨N, hN⟩ := eventually_atTop.1 (ih hg')
    refine eventually_atTop.2 ⟨N + 1, fun n hn => ?_⟩
    obtain ⟨m, rfl⟩ : ∃ m, n = m + 1 := ⟨n - 1, by omega⟩
    exact ref_returns (hN m (by omega)) hx hbody

end Descent
