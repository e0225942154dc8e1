-- SUMMARY: Which faults leave a run, and that a run under no limits answers.
import Descent.Proofs.CheckedReading
import Descent.Proofs.Faults

/-! # The faults that leave a run

Delegations and runs are confined as the combinators are (`Descent.Proofs.Faults`), so
each fault of an evaluation has one of the reasons listed there. When the functions of
the author answer with values, little is left of the list. A run refuses a source that
is too large, and a whole number that is no length of time, before it does anything
else; all other faults are limits that were reached or flaws of the grammar:
`Grammar.run_faults`. -/

namespace Descent

/-! ## Rules -/

/-- What a use of a rule gets instead of a parser is always a flaw of the grammar. -/
theorem Cell.eq_grammar_of_answer {name : String} {cell : Cell} {f : Fault}
    (h : cell.answer? name = some (.error f)) : ∃ d cause, f = .grammar d cause := by
  cases cell with
  | unbuilt | built => cases h
  | building =>
    cases h
    exact ⟨_, _, rfl⟩
  | failed d cause =>
    cases h
    exact ⟨_, _, rfl⟩

/-- A rule that is built leaves all used rules intact if the others are. -/
theorem State.Intact.settle {used : Rule → Prop} {s : State} {r : Rule} {g : Grammar}
    (h : s.Intact fun q => used q ∧ q ≠ r) : (s.setCell r (.built g)).Intact used := by
  intro q hq
  by_cases hqr : q = r
  · exact .inr ⟨g, if_pos hqr⟩
  · have hcell : (s.setCell r (.built g)).cells q = s.cells q := if_neg hqr
    rw [hcell]
    exact h q ⟨hq, hqr⟩

namespace Setting

section Rules

variable {t : Setting}

/-- In an intact state sound builders give each used rule a parser. -/
theorem run_resolve_of_sound (hsound : t.rules.Sound t.parts.rule t.runs) {env : Env} {s : State}
    (henv : env.rules = t.rules) (hs : s.Intact t.parts.rule) {r : Rule} (hr : t.parts.rule r) :
    ∃ g s', (resolve (Grammar.runInner env) r).run env s = (.ok g, s') ∧
      s'.Intact t.parts.rule := by
  rcases hs r hr with hcell | ⟨g, hcell⟩
  · obtain ⟨b, u, e, a, hb, -, ha, hresolve⟩ :=
      run_resolve_of_unbuilt (Grammar.runInner env) env hcell
    obtain ⟨g, u', hbuild, hintact⟩ := hsound.build r hr env s henv hs hcell
    rw [henv] at hb
    cases hb.symm.trans hbuild
    cases ha
    exact ⟨g, _, hresolve, hintact.settle⟩
  · have hanswer : (s.cells r).answer? (env.ruleName r) = some (.ok g) := by
      rw [hcell]
      rfl
    exact ⟨g, s, run_resolve_of_answer hanswer, hs⟩

/-- A rule that cannot be used is a flaw of the grammar. -/
theorem run_resolve_error {runInner : RunGrammar} {r : Rule} {env : Env} {s s' : State} {f : Fault}
    (h : (resolve runInner r).run env s = (.error f, s')) : ∃ d cause, f = .grammar d cause := by
  cases hanswer : (s.cells r).answer? (env.ruleName r) with
  | some a =>
    cases h.symm.trans (run_resolve_of_answer hanswer)
    exact Cell.eq_grammar_of_answer hanswer
  | none =>
    obtain ⟨b, u, e, a, -, -, ha, hresolve⟩ :=
      run_resolve_of_unbuilt runInner env (Cell.answer?_eq_none_iff.1 hanswer)
    cases h.symm.trans hresolve
    exact Cell.eq_grammar_of_answer ha

theorem resolve_confined (ht : t.Lawful) {r : Rule} (hr : t.parts.rule r) (c : Cursor) :
    Eval.Ensures (t.invariant c) (fun g => (t.rules r).body.parser? = some g)
      (resolve (Grammar.runNested t.rules.ruleName stackLimit) r) := by
  intro env s hs
  have hgrows := Grammar.runNested_grows ht.author ht.use stackLimit
  have hgrown := resolve_ensures (Invariant.grown_lawful t.rules t.parts s) hgrows ht.use hr env s
    ⟨hs.rules, .refl hs.faithful⟩
  have hinner : Grammar.runInner env = Grammar.runNested t.rules.ruleName stackLimit := by
    rw [← hs.rules]
    rfl
  have hsound := fun hsound : t.sound =>
    run_resolve_of_sound (ht.sound hsound) hs.rules (hs.intact hsound) hr
  rw [hinner] at hsound
  cases hrun : (resolve (Grammar.runNested t.rules.ruleName stackLimit) r).run env s with
  | mk a s' =>
    rw [hrun] at hgrown hsound
    cases a with
    | ok g =>
      refine ⟨hgrown.1, hs.rules, hs.limits, hgrown.2.2.faithful, fun hintact => ?_⟩
      obtain ⟨_, _, ⟨⟩, h⟩ := hsound hintact
      exact h
    | error f =>
      obtain ⟨d, cause, rfl⟩ := run_resolve_error hrun
      refine Fault.Arises.grammar fun hintact => ?_
      obtain ⟨_, _, ⟨⟩, _⟩ := hsound hintact

theorem refuse_confined {α : Type} {Q : α → Prop} (r : Rule) (c : Cursor) :
    Eval.Ensures (t.invariant c) Q (refuse r c.pos) := by
  refine .bind ask_confined fun env henv => ?_
  cases hscope : env.scope with
  | none =>
    have hlimits : t.limits = none := by
      rw [← henv.2, hscope]
      rfl
    exact raise_confined (.stack hlimits)
  | some scope =>
    have hlimits : t.limits = some scope.outset := by
      rw [← henv.2, hscope]
      rfl
    have hname : env.ruleName r = t.rules.ruleName r := by
      rw [← henv.1]
      rfl
    have harises : (Fault.depth scope.outset.guard.limit (t.rules.ruleName r) c.pos).Arises t c :=
      .depth hlimits c.spans_self
    rw [← hname] at harises
    exact .bind (emit_confined _) fun _ _ => raise_confined harises

theorem deeper_confined {α : Type} {Q : α → Prop} {x : Eval α} {c : Cursor}
    (hx : Eval.Ensures (t.invariant c) Q x) (r : Rule) (position : Nat) :
    Eval.Ensures (t.invariant c) Q (deeper r position x) := by
  intro env s hs
  cases hscope : env.scope with
  | none =>
    have hrun : (deeper r position x).run env s = x.run env s := by
      simp only [deeper, Eval.run_bind, Eval.run_ask, hscope]
    rw [hrun]
    exact hx env s hs
  | some scope =>
    let inner : Env := { env with scope := some { scope with guard := scope.guard.enter } }
    let s₁ := s.emit (.opened r position scope.guard.enter.depth)
    have hlimits : inner.scope.map Scope.outset = t.limits := by
      rw [← hs.limits, hscope]
      rfl
    have hs₁ : t.Holds inner s₁ :=
      ⟨hs.rules, hlimits, hs.faithful, hs.intact⟩
    have h := hx inner s₁ hs₁
    rw [run_deeper hscope, Eval.run_closing]
    cases hrun : x.run inner s₁ with
    | mk a s' =>
      rw [hrun] at h
      cases a with
      | error f => exact h
      | ok a => exact ⟨h.1, hs.rules, hs.limits, h.2.faithful, h.2.intact⟩

/-- A run inside a mapping function keeps the setting. What stops it stops the mapping
    function. -/
theorem runInner_confined (ht : t.Lawful) {o : RunOptions} {g : Grammar} (hruns : t.runs o g)
    (hg : g.Uses t.parts) (text : String) (c : Cursor) :
    Eval.Ensures (t.invariant c) (fun out => t.rules.RunsTo t.runs (.ok out))
      (Grammar.runNested t.rules.ruleName stackLimit o g text) := by
  intro env s hs
  have hgrown := Grammar.runNested_grows ht.author ht.use stackLimit s o g text hg env s
    ⟨hs.rules, .refl hs.faithful⟩
  have hinner : Grammar.runInner env = Grammar.runNested t.rules.ruleName stackLimit := by
    rw [← hs.rules]
    rfl
  have hsound := fun hsound : t.sound =>
    (ht.sound hsound).run o g hruns text env s hs.rules (hs.intact hsound)
  have hends : t.rules.RunsTo t.runs ((Grammar.runInner env o g text).run env s).1 :=
    ⟨o, g, text, env, s, hruns, hs.rules, hs.faithful, rfl⟩
  rw [hinner] at hsound hends
  cases hrun : (Grammar.runNested t.rules.ruleName stackLimit o g text).run env s with
  | mk a s' =>
    rw [hrun] at hgrown hsound hends
    cases a with
    | ok out => exact ⟨hends, hs.rules, hs.limits, hgrown.2.2.faithful, hsound⟩
    | error f => exact Fault.Arises.inner hends

theorem links_confined (ht : t.Lawful) (allowance : Nat) :
    (t.rules.links (Grammar.runNested t.rules.ruleName stackLimit) allowance).Confined t := by
  induction allowance with
  | zero =>
    refine ⟨fun r c hr => ?_, fun o g text c hruns hg => runInner_confined ht hruns hg text c⟩
    refine .bind (resolve_confined ht hr c) fun g _ => ?_
    exact .bind (checkpoint_confined c) fun _ _ => refuse_confined r c
  | succ n ih =>
    refine ⟨fun r c hr => ?_, fun o g text c hruns hg => runInner_confined ht hruns hg text c⟩
    refine .bind (resolve_confined ht hr c) fun g hbody => ?_
    have hg : g.Uses t.parts := (ht.use r hr).parser hbody
    have hstarts : g.Starts t.runs := ht.start r g hr hbody
    refine .bind (checkpoint_confined c) fun _ _ => deeper_confined ?_ r c.pos
    exact g.confined ht.author ih hg hstarts c

/-- Where the setting holds, a grammar is confined. -/
theorem parser_confined (ht : t.Lawful) {g : Grammar} (hg : g.Uses t.parts)
    (hstarts : g.Starts t.runs) {env : Env} (henv : env.rules = t.rules) (allowance : Nat) :
    t.Confines (g.parser env allowance) := by
  have hparser : g.parser env allowance = g.denote (t.rules.links
      (Grammar.runNested t.rules.ruleName stackLimit) allowance) := by
    rw [← henv]
    rfl
  rw [hparser]
  exact g.confined ht.author (links_confined ht allowance) hg hstarts

end Rules

end Setting

/-! ## Runs -/

/-- The functions of the author answer: predicates with a truth value, mapping functions
    with a value. There are no parsing functions of the author. -/
structure Rules.Total (rules : Rules) (parts : Parts) (runs : RunOptions → Grammar → Prop) :
    Prop where
  author : ∀ fn, ¬ parts.author fn
  predicate : ∀ p, parts.predicate p → ∀ ch, ∃ b, p.test ch = .ok b
  mapping : ∀ fn, parts.mapping fn → ∀ name v, ∃ w, (fn v).toValue name = .ok w
  run : ∀ r, rules.RunsTo runs r → ∃ v n, r = .ok (.success v n)

section Runs

variable {t : Setting} {c : Cursor} {f : Fault}

theorem Rules.Total.raises (h : t.rules.Total t.parts t.runs) : ¬ t.parts.Raises f := by
  intro hraises
  rcases hraises with ⟨p, ch, hp, hf⟩ | ⟨fn, v, hfn, hf⟩
  · obtain ⟨b, hb⟩ := h.predicate p hp ch
    cases hb.symm.trans hf
  · obtain ⟨w, hw⟩ := h.mapping fn hfn "" v
    rw [hf] at hw
    cases hw

/-- When the functions of the author answer, only limits and flaws of the grammar are left. -/
theorem Fault.Arises.limit_or_grammar (h : f.Arises t c) (htotal : t.rules.Total t.parts t.runs)
    (hlimits : t.limits ≠ none) :
    ErrorClass.parseAborted ∈ f.errorClass.lineage ∨ f.errorClass = .grammarDefinition := by
  cases h with
  | cancelled =>
    have hmem : ErrorClass.parseAborted ∈ ErrorClass.parseCancelled.lineage := by decide
    exact .inl hmem
  | deadline =>
    have hmem : ErrorClass.parseAborted ∈ ErrorClass.deadlineExceeded.lineage := by decide
    exact .inl hmem
  | depth =>
    have hmem : ErrorClass.parseAborted ∈ ErrorClass.depthLimitExceeded.lineage := by decide
    exact .inl hmem
  | stack hnone => exact absurd hnone hlimits
  | @grammar d cause _ => cases cause <;> exact .inr rfl
  | raised hraises => exact absurd hraises htotal.raises
  | @mapped fn v name f hfn hreply =>
    obtain ⟨w, hw⟩ := htotal.mapping fn hfn name v
    cases hw.symm.trans hreply
  | inner hrun | innerFailed hrun =>
    obtain ⟨v, n, hr⟩ := htotal.run _ hrun
    cases hr

/-- With sound builders, and nothing to watch for, only the depth limit is left. -/
theorem Fault.Arises.isDepth (h : f.Arises t c) (htotal : t.rules.Total t.parts t.runs)
    (hsound : t.sound) {scope : Scope} (hlimits : t.limits = some scope)
    (hwatched : scope.watched = false) (hdeadline : scope.deadline = none) : f.IsDepth := by
  cases h with
  | cancelled hscope hw =>
    cases hscope.symm.trans hlimits
    cases hw.symm.trans hwatched
  | deadline hscope hd =>
    cases hscope.symm.trans hlimits
    cases hd.symm.trans hdeadline
  | depth => exact ⟨_, _, _, rfl⟩
  | stack hnone => cases hnone.symm.trans hlimits
  | grammar hnot => exact absurd hsound hnot
  | raised hraises => exact absurd hraises htotal.raises
  | @mapped fn v name f hfn hreply =>
    obtain ⟨w, hw⟩ := htotal.mapping fn hfn name v
    cases hw.symm.trans hreply
  | inner hrun | innerFailed hrun =>
    obtain ⟨v, n, hr⟩ := htotal.run _ hrun
    cases hr

end Runs

/-- The timeout is a whole number that is too large for a length of time. -/
def RunOptions.Refused (o : RunOptions) : Prop :=
  ∃ n, o.timeout = some (.whole n) ∧ Seconds.ofWhole? n = none

theorem Timeout.seconds_error {t : Timeout} {f : Fault} (h : t.seconds = .error f) :
    f = .timeoutTooLarge ∧ ∃ n, t = .whole n ∧ Seconds.ofWhole? n = none := by
  cases t with
  | measured d => cases h
  | whole n =>
    unfold seconds at h
    cases hn : Seconds.ofWhole? n with
    | some d =>
      simp only [hn] at h
      cases h
    | none =>
      simp only [hn] at h
      cases h
      exact ⟨rfl, n, rfl, hn⟩

/-- The deadline of a run that starts at a reading of the clock. -/
def RunOptions.deadline (o : RunOptions) (now : Rat) : Except Fault (Option Deadline) :=
  match o.timeout with
  | none => .ok none
  | some t => do
    let d ← t.seconds
    return some ⟨now, d⟩

theorem RunOptions.deadline_error {o : RunOptions} {now : Rat} {f : Fault}
    (h : o.deadline now = .error f) : o.Refused ∧ f = .timeoutTooLarge := by
  unfold deadline at h
  cases htimeout : o.timeout with
  | none =>
    rw [htimeout] at h
    cases h
  | some t =>
    rw [htimeout] at h
    dsimp only at h
    cases hseconds : t.seconds with
    | error f' =>
      rw [hseconds] at h
      cases h
      obtain ⟨rfl, n, rfl, hn⟩ := Timeout.seconds_error hseconds
      exact ⟨⟨n, htimeout, hn⟩, rfl⟩
    | ok d =>
      rw [hseconds] at h
      cases h

theorem RunOptions.deadline_of_none {o : RunOptions} {now : Rat} {d : Option Deadline}
    (h : o.timeout = none) (hd : o.deadline now = .ok d) : d = none := by
  unfold deadline at hd
  rw [h] at hd
  cases hd
  rfl

theorem RunOptions.Refused.deadline {o : RunOptions} (h : o.Refused) (now : Rat) :
    o.deadline now = .error .timeoutTooLarge := by
  obtain ⟨n, htimeout, hn⟩ := h
  have hseconds : (Timeout.whole n).seconds = .error .timeoutTooLarge := by
    unfold Timeout.seconds
    dsimp only
    rw [hn]
  unfold RunOptions.deadline
  rw [htimeout]
  dsimp only
  rw [hseconds]
  rfl

/-- How often a run reads the clock before it tries its parser. -/
def RunOptions.readings (o : RunOptions) : Nat := o.timeout.elim 0 fun _ => 1

theorem RunOptions.Refused.readings {o : RunOptions} (h : o.Refused) : o.readings = 1 := by
  obtain ⟨n, htimeout, -⟩ := h
  unfold RunOptions.readings
  rw [htimeout]
  rfl

/-- What a run writes down before its limits are set. -/
def RunOptions.foreword (o : RunOptions) : Journal := (StackBudget.lowered? {} o.maxDepth).toList

theorem run_noteLowered (o : RunOptions) (env : Env) (s : State) :
    (noteLowered o.maxDepth).run env s =
      (.ok (), { s with journal := o.foreword ++ s.journal }) := by
  unfold noteLowered RunOptions.foreword
  cases StackBudget.lowered? {} o.maxDepth <;> rfl

/-- A scope has the limits that were asked for, unless the timeout is refused. -/
theorem run_openScope (o : RunOptions) (env : Env) (s : State) :
    (openScope o.maxDepth o.timeout o.watched).run env s =
      ((o.deadline (env.clock s.readings)).map fun d => ⟨.ofRequested o.maxDepth, d, o.watched⟩,
        { s with
          journal := o.foreword ++ s.journal
          readings := s.readings + o.readings }) := by
  unfold openScope RunOptions.deadline RunOptions.readings
  rw [Eval.run_bind_of_ok (run_noteLowered o env s)]
  cases o.timeout with
  | none => rfl
  | some t =>
    simp only [Eval.run_bind, Eval.run_readClock, Eval.run_ofExcept]
    cases t.seconds <;> rfl

/-- The setting inside a run. -/
def Setting.opened (t : Setting) (o : RunOptions) (deadline : Option Deadline) : Setting :=
  { t with limits := some ⟨.ofRequested o.maxDepth, deadline, o.watched⟩ }

/-- What stops a run over a source that is not too large. -/
theorem Grammar.run_confined {t : Setting} (ht : t.Lawful) {g : Grammar} (hg : g.Uses t.parts)
    (hstarts : g.Starts t.runs) {env : Env} (henv : env.rules = t.rules) {s s' : State}
    (hs : s.Faithful t.rules) (hintact : t.sound → s.Intact t.parts.rule) {o : RunOptions}
    {source : Source} (hsize : o.rejects source.size = false) {f : Fault}
    (h : (g.run o source).run env s = (.error f, s')) :
    (o.Refused ∧ f = .timeoutTooLarge) ∨
      ∃ deadline, (o.timeout = none → deadline = none) ∧
        f.Arises (t.opened o deadline) (.start source) := by
  rw [run_run, Parser.run_eq, hsize, if_neg Bool.false_ne_true] at h
  have hopen := run_openScope o env s
  cases hdeadline : o.deadline (env.clock s.readings) with
  | error f' =>
    obtain ⟨hrefused, rfl⟩ := RunOptions.deadline_error hdeadline
    rw [hdeadline] at hopen
    rw [Eval.run_bind_of_error hopen] at h
    cases h
    exact .inl ⟨hrefused, rfl⟩
  | ok deadline =>
    refine .inr ⟨deadline, fun hnone => RunOptions.deadline_of_none hnone hdeadline, ?_⟩
    rw [hdeadline] at hopen
    let scope : Scope := ⟨.ofRequested o.maxDepth, deadline, o.watched⟩
    let inner : Env := { env with scope := some scope }
    let s₁ : State := { s with
      journal := o.foreword ++ s.journal
      readings := s.readings + o.readings }
    let s₂ := s₁.emit (.running (g.parser env o.allowance).name source.size)
    have ht' : (t.opened o deadline).Lawful := ⟨ht.author, ht.use, ht.start, ht.sound⟩
    have hs₂ : (t.opened o deadline).Holds inner s₂ := ⟨henv, rfl, hs, hintact⟩
    have hconfined := Setting.parser_confined ht' hg hstarts henv o.allowance
      (.start source) inner s₂ hs₂
    rw [Eval.run_bind_of_ok hopen, Eval.run_bind_of_ok (Eval.run_emit _ _ _), Eval.run_bind,
      Eval.run_closing, Eval.run_within] at h
    cases hrun : ((g.parser env o.allowance).fn (.start source)).run inner s₂ with
    | mk a s₃ =>
      rw [hrun] at hconfined h
      cases a with
      | error f' =>
        cases h
        exact hconfined
      | ok out =>
        dsimp only at h
        cases hout : out.whole o with
        | success v n =>
          rw [hout] at h
          cases h
        | failure e =>
          rw [hout] at h
          cases h

/-- A run over a source that is too large is refused before anything is done. -/
theorem Grammar.run_of_rejects (g : Grammar) {o : RunOptions} {source : Source}
    (h : o.rejects source.size = true) (env : Env) (s : State) :
    (g.run o source).run env s = (.error (.sourceTooLarge source.size o.maxSize), s) := by
  rw [run_run, Parser.run_eq, if_pos h, Eval.run_raise]

/-- A run whose timeout is refused does not try its parser: a limit that is lowered is
    written down, the clock is read once, and that is all. -/
theorem Grammar.run_of_refused (g : Grammar) {o : RunOptions} (h : o.Refused) {source : Source}
    (hsize : o.rejects source.size = false) (env : Env) (s : State) :
    (g.run o source).run env s = (.error .timeoutTooLarge,
      { s with
        journal := o.foreword ++ s.journal
        readings := s.readings + 1 }) := by
  have hopen := run_openScope o env s
  rw [h.deadline, h.readings] at hopen
  rw [run_run, Parser.run_eq, hsize, if_neg Bool.false_ne_true, Eval.run_bind_of_error hopen]

theorem RunOptions.rejects_iff (o : RunOptions) (size : Nat) :
    o.rejects size = true ↔ 0 < o.maxSize ∧ o.maxSize < size := by
  simp [rejects]

/-- Options with a timeout that is no length of time. -/
def RunOptions.vast : RunOptions where
  timeout := some (.whole (Int.ofNat (Nat.pow 10 400)))

theorem RunOptions.vast_refused : vast.Refused := by
  have hn : Seconds.ofWhole? (Int.ofNat (Nat.pow 10 400)) = none := by decide +kernel
  exact ⟨_, rfl, hn⟩

end Descent
