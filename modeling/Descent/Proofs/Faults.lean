-- SUMMARY: The faults that can stop an evaluation, and where they stop it.
import Descent.Proofs.Completeness
import Descent.Proofs.Discipline

/-! # What stops an evaluation

An evaluation ends in a fault only for a few reasons: a limit of the active run is
reached, a rule cannot be built, or a function that the author wrote raises an error or
hands back something that is not a value. `Fault.Arises` lists them. The list has no
entry for a cursor that leaves its source nor for a choice without failures, because
every parser moves on in its source and every failure contributes to the choice that it
is a branch of.

A mapping function may start a run of its own. How such a run can end is a property of
the mapping function, as it is of a function of its argument alone.

A limit stops an evaluation at a place between the cursor where the evaluation began and
the end of the source. The combinators go on from places that they reached, so what
stops a part stops the whole: `Grammar.confined`. -/

namespace Descent

/-! ## Places ahead of a cursor -/

namespace Cursor

/-- The position lies between the cursor and the end of its source. -/
def Spans (c : Cursor) (p : Int) : Prop := c.pos ≤ p ∧ p ≤ c.source.size

theorem spans_self (c : Cursor) : c.Spans c.pos := by
  have hle := c.pos_le
  constructor <;> omega

theorem Onward.spans {c n : Cursor} (h : c.Onward n) {p : Int} (hp : n.Spans p) : c.Spans p := by
  have hpos := h.pos
  obtain ⟨hlo, hhi⟩ := hp
  rw [h.source] at hhi
  constructor <;> omega

end Cursor

/-- What is sane at a cursor is sane at every cursor before it. -/
theorem Outcome.Sane.back {c n : Cursor} {o : Outcome} (h : o.Sane n) (hn : c.Onward n) :
    o.Sane c := by
  cases o with
  | success v m => exact hn.trans h
  | failure f => exact h

/-! ## Runs of mapping functions -/

namespace Grammar

mutual
/-- The runs that mapping functions in a grammar start are among those allowed. -/
def Starts (runs : RunOptions → Grammar → Prop) : Grammar → Prop
  | .char _ => True
  | .literal _ => True
  | .satisfy _ _ => True
  | .eof => True
  | .spaces => True
  | .either a b => a.Starts runs ∧ b.Starts runs
  | .choice p ps => p.Starts runs ∧ AllStart runs ps
  | .both a b => a.Starts runs ∧ b.Starts runs
  | .absent p => p.Starts runs
  | .seq p ps => p.Starts runs ∧ AllStart runs ps
  | .between o p c => o.Starts runs ∧ p.Starts runs ∧ c.Starts runs
  | .many p => p.Starts runs
  | .many1 p => p.Starts runs
  | .optional p => p.Starts runs
  | .sepBy p sep => p.Starts runs ∧ sep.Starts runs
  | .sepBy1 p sep => p.Starts runs ∧ sep.Starts runs
  | .token p => p.Starts runs
  | .map p _ => p.Starts runs
  | .mapRun p options inner => p.Starts runs ∧ runs options inner
  | .named _ p => p.Starts runs
  | .ref _ => True
  | .mark _ p => p.Starts runs
  | .author _ _ => True

/-- The runs that mapping functions in several grammars start are among those allowed. -/
def AllStart (runs : RunOptions → Grammar → Prop) : List Grammar → Prop
  | [] => True
  | p :: ps => p.Starts runs ∧ AllStart runs ps
end

theorem allStart_iff {runs : RunOptions → Grammar → Prop} {gs : List Grammar} :
    AllStart runs gs ↔ ∀ g ∈ gs, g.Starts runs := by
  induction gs with
  | nil => simp [AllStart]
  | cons g gs ih => simp [AllStart, ih]

end Grammar

namespace Rules

/-- The runs that mapping functions in the used rules start are among those allowed. -/
def Start (rules : Rules) (parts : Parts) (runs : RunOptions → Grammar → Prop) : Prop :=
  ∀ r g, parts.rule r → (rules r).body.parser? = some g → g.Starts runs

/-- A run that a mapping function starts can end so. -/
def RunsTo (rules : Rules) (runs : RunOptions → Grammar → Prop) (r : Except Fault Outcome) : Prop :=
  ∃ (o : RunOptions) (g : Grammar) (text : String) (env : Env) (s : State),
    runs o g ∧ env.rules = rules ∧ s.Faithful rules ∧
      ((Grammar.runInner env o g text).run env s).1 = r

theorem not_runsTo (rules : Rules) (r : Except Fault Outcome) :
    ¬ rules.RunsTo (fun _ _ => False) r := by
  intro h
  obtain ⟨_, _, _, _, _, hruns, -⟩ := h
  exact hruns

theorem nested_start (parts : Parts) (runs : RunOptions → Grammar → Prop) :
    nested.Start parts runs := by
  intro r g _ hbody
  cases hbody
  exact ⟨⟨trivial, trivial, trivial⟩, trivial⟩

end Rules

/-! ## Builders that hand back parsers -/

/-- No used rule is broken, and none is being built. -/
def State.Intact (used : Rule → Prop) (s : State) : Prop :=
  ∀ r, used r → s.cells r = .unbuilt ∨ ∃ g, s.cells r = .built g

theorem State.intact_init (used : Rule → Prop) : State.Intact used {} := fun _ _ => .inl rfl

/-- Where no used rule is broken or being built, the builder of a used rule hands back a
    parser and breaks no other rule, and a run that a mapping function starts breaks none. -/
structure Rules.Sound (rules : Rules) (used : Rule → Prop) (runs : RunOptions → Grammar → Prop) :
    Prop where
  build : ∀ r, used r → ∀ (env : Env) (s : State), env.rules = rules → s.Intact used →
    s.cells r = .unbuilt →
    ∃ g t, ((rules r).body.build (Grammar.runInner env) r).run env (s.starting r) =
        (.ok (.inl g), t) ∧
      t.Intact fun q => used q ∧ q ≠ r
  run : ∀ o g, runs o g → ∀ text (env : Env) (s : State), env.rules = rules → s.Intact used →
    ((Grammar.runInner env o g text).run env s).2.Intact used

theorem State.starting_intact {used : Rule → Prop} {s : State} (h : s.Intact used) (r : Rule) :
    (s.starting r).Intact fun q => used q ∧ q ≠ r := by
  intro q hq
  have hcell : (s.starting r).cells q = s.cells q := if_neg hq.2
  rw [hcell]
  exact h q hq.1

/-- Builders that only construct parsers do so. -/
theorem Rules.Construct.sound {rules : Rules} {parts : Parts} (h : rules.Construct parts) :
    rules.Sound parts.rule fun _ _ => False where
  build := by
    intro r hr env s _ hs _
    obtain ⟨g, hbody, -⟩ := h r hr
    refine ⟨g, s.starting r, ?_, State.starting_intact hs r⟩
    rw [hbody]
    rfl
  run := fun _ _ h => h.elim

/-! ## Reasons for faults -/

/-- The limits of a run, as they were when no delegation was open. -/
def Scope.outset (scope : Scope) : Scope := { scope with guard := scope.guard.reset }

/-- Where an evaluation takes place. -/
structure Setting where
  rules : Rules
  parts : Parts
  /-- The runs that mapping functions start. -/
  runs : RunOptions → Grammar → Prop := fun _ _ => False
  /-- The limits of the active run, if there is one. -/
  limits : Option Scope
  /-- Whether no rule is broken and all builders are sound. -/
  sound : Prop

/-- Why a fault can stop an evaluation that began at a cursor. -/
inductive Fault.Arises (t : Setting) (c : Cursor) : Fault → Prop
  | cancelled {scope : Scope} {p : Int} : t.limits = some scope → scope.watched = true →
      c.Spans p → Arises t c (.cancelled p)
  | deadline {scope : Scope} {d : Deadline} {p : Int} : t.limits = some scope →
      scope.deadline = some d → c.Spans p → Arises t c (.deadline d.timeout.orZero p)
  | depth {scope : Scope} {r : Rule} {p : Int} : t.limits = some scope → c.Spans p →
      Arises t c (.depth scope.guard.limit (t.rules.ruleName r) p)
  /-- Outside a run only the host's stack is a limit. -/
  | stack : t.limits = none → Arises t c .stackExhausted
  | grammar {d : Diagnostic} {cause : Option Fault} : ¬ t.sound → Arises t c (.grammar d cause)
  | raised {f : Fault} : t.parts.Raises f → Arises t c f
  | mapped {fn : Value → Reply} {v : Value} {name : String} {f : Fault} : t.parts.mapping fn →
      (fn v).toValue name = .error f → Arises t c f
  /-- A run that a mapping function started was stopped. -/
  | inner {f : Fault} : t.rules.RunsTo t.runs (.error f) → Arises t c f
  /-- A run that a mapping function started failed. -/
  | innerFailed {e : Failure} {name : String} : t.rules.RunsTo t.runs (.ok (.failure e)) →
      Arises t c (.mapping name .failure)

theorem Fault.Arises.back {t : Setting} {c n : Cursor} {f : Fault} (h : f.Arises t n)
    (hn : c.Onward n) : f.Arises t c := by
  cases h with
  | cancelled hlimits hwatched hp => exact .cancelled hlimits hwatched (hn.spans hp)
  | deadline hlimits hdeadline hp => exact .deadline hlimits hdeadline (hn.spans hp)
  | depth hlimits hp => exact .depth hlimits (hn.spans hp)
  | stack hlimits => exact .stack hlimits
  | grammar hsound => exact .grammar hsound
  | raised hraises => exact .raised hraises
  | mapped hfn hreply => exact .mapped hfn hreply
  | inner hrun => exact .inner hrun
  | innerFailed hrun => exact .innerFailed hrun

namespace Setting

/-- The environment and the state are as the setting says. -/
structure Holds (t : Setting) (env : Env) (s : State) : Prop where
  rules : env.rules = t.rules
  limits : env.scope.map Scope.outset = t.limits
  faithful : s.Faithful t.rules
  intact : t.sound → s.Intact t.parts.rule

/-- What is assumed of the rules. -/
structure Lawful (t : Setting) : Prop where
  author : ∀ fn, ¬ t.parts.author fn
  use : t.rules.Use t.parts
  start : t.rules.Start t.parts t.runs
  sound : t.sound → t.rules.Sound t.parts.rule t.runs

/-- The setting is kept, and what stops a computation can stop an evaluation that began
    at the cursor. -/
def invariant (t : Setting) (c : Cursor) : Invariant where
  rules := t.rules
  parts := t.parts
  holds := t.Holds
  stops := fun _ f _ => f.Arises t c

/-- At every cursor the parser answers with a sane outcome or is stopped for a reason. -/
def Confines (t : Setting) (p : Parser) : Prop :=
  ∀ c, Eval.Ensures (t.invariant c) (Outcome.Sane c) (p.fn c)

section Computations

variable {t : Setting} {α : Type} {Q : α → Prop} {x : Eval α} {c n : Cursor}

theorem Holds.same_cells {env : Env} {s s' : State} (h : t.Holds env s)
    (hcells : s'.cells = s.cells) : t.Holds env s' := by
  refine ⟨h.rules, h.limits, ?_, fun hsound => ?_⟩
  · intro r g hg
    rw [hcells] at hg
    exact h.faithful r g hg
  · intro r hr
    rw [hcells]
    exact h.intact hsound r hr

theorem raise_confined {f : Fault} (h : f.Arises t c) :
    Eval.Ensures (t.invariant c) Q (Eval.raise f) := fun _ _ _ => h

theorem ask_confined : Eval.Ensures (t.invariant c)
    (fun env => env.rules = t.rules ∧ env.scope.map Scope.outset = t.limits) Eval.ask :=
  fun _ _ hs => ⟨⟨hs.rules, hs.limits⟩, hs⟩

theorem get_confined : Eval.Ensures (t.invariant c) (fun _ => True) Eval.get :=
  fun _ _ hs => ⟨trivial, hs⟩

theorem modify_confined {f : State → State} (h : ∀ s, (f s).cells = s.cells) :
    Eval.Ensures (t.invariant c) (fun _ => True) (Eval.modify f) :=
  fun _ s hs => ⟨trivial, hs.same_cells (h s)⟩

theorem emit_confined (e : Event) : Eval.Ensures (t.invariant c) (fun _ => True) (Eval.emit e) :=
  modify_confined fun _ => rfl

theorem readClock_confined : Eval.Ensures (t.invariant c) (fun _ => True) Eval.readClock :=
  fun _ _ hs => ⟨trivial, hs.same_cells rfl⟩

/-- What is confined further on is confined here. -/
theorem onward_confined (hn : c.Onward n) (hx : Eval.Ensures (t.invariant n) Q x) :
    Eval.Ensures (t.invariant c) Q x := by
  intro env s hs
  have h := hx env s hs
  cases hrun : x.run env s with
  | mk r s' =>
    rw [hrun] at h
    cases r with
    | ok a => exact h
    | error f => exact Fault.Arises.back h hn

/-- A parser that goes on from a place further on. -/
theorem Confines.onward {p : Parser} (hp : t.Confines p) (hn : c.Onward n) :
    Eval.Ensures (t.invariant c) (Outcome.Sane n) (p.fn n) := onward_confined hn (hp n)

theorem checkpoint_confined (c : Cursor) :
    Eval.Ensures (t.invariant c) (fun _ => True) (checkpoint c.pos) := by
  refine .bind ask_confined fun env henv => ?_
  cases hscope : env.scope with
  | none => exact .pure trivial
  | some scope =>
    have hlimits : t.limits = some scope.outset := by
      rw [← henv.2, hscope]
      rfl
    refine .bind (emit_confined _) fun _ _ => .bind get_confined fun s _ => ?_
    split
    · rename_i hcancelled
      have hwatched : scope.outset.watched = true := (Bool.and_eq_true_iff.1 hcancelled).1
      exact raise_confined (.cancelled hlimits hwatched c.spans_self)
    · cases hdeadline : scope.deadline with
      | none => exact .pure trivial
      | some deadline =>
        refine .bind readClock_confined fun now _ => ?_
        unfold Deadline.permit
        split
        · exact raise_confined (.deadline hlimits hdeadline c.spans_self)
        · exact .pure trivial

theorem apply_confined {p : Predicate} (hp : t.parts.predicate p) (ch : Char) :
    Eval.Ensures (t.invariant c) (fun _ => True) (p.apply ch) := by
  have hpull : ∀ trigger,
      Eval.Ensures (t.invariant c) (fun _ => True) (Predicate.pull trigger) := by
    intro trigger
    refine .bind get_confined fun s _ => .bind (modify_confined fun _ => rfl) fun _ _ => ?_
    split
    · exact .bind (emit_confined _) fun _ _ => modify_confined fun _ => rfl
    · exact .pure trivial
  have htest : Eval.Ensures (t.invariant c) (fun _ => True) (Eval.ofExcept (p.test ch)) := by
    cases h : p.test ch with
    | ok b => exact .pure trivial
    | error f => exact raise_confined (.raised (.inl ⟨p, ch, hp, h⟩))
  unfold Predicate.apply
  cases p.trigger with
  | none => exact htest
  | some trigger => exact .bind (hpull trigger) fun _ _ => htest

/-! ## Combinators -/

/-- One branch that contributes a failure is enough for a choice to fail in order. -/
theorem noneMatched_confined {failed : List Failure} {f : Failure} (hf : f ∈ failed)
    (hs : f.spliced ≠ []) :
    Eval.Ensures (t.invariant c) (Outcome.Sane c) (Parser.noneMatched failed) := by
  obtain ⟨h, hh⟩ := Failure.exists_alternatives hf hs
  unfold Parser.noneMatched
  rw [hh]
  exact .pure (Failure.spliced_alternatives_ne_nil hh)

theorem tryEach_confined {ps : List Parser} (hps : ∀ p ∈ ps, t.Confines p)
    {failed : List Failure} (hfailed : ∀ f ∈ failed, f.spliced ≠ [])
    (hne : ps ≠ [] ∨ failed ≠ []) (c : Cursor) :
    Eval.Ensures (t.invariant c) (Outcome.Sane c) (Parser.tryEach failed ps c) := by
  induction ps generalizing failed with
  | nil =>
    obtain ⟨f, hf⟩ := List.exists_mem_of_ne_nil failed (hne.resolve_left fun h => h rfl)
    exact noneMatched_confined (List.mem_reverse.2 hf) (hfailed f hf)
  | cons p ps ih =>
    refine .bind (hps p List.mem_cons_self c) fun o ho => ?_
    cases o with
    | success v n => exact .pure ho
    | failure f =>
      have hps' : ∀ q ∈ ps, t.Confines q := fun q hq => hps q (List.mem_cons_of_mem p hq)
      have hfailed' : ∀ g ∈ f :: failed, g.spliced ≠ [] := List.forall_mem_cons.2 ⟨ho, hfailed⟩
      exact ih hps' hfailed' (.inr (List.cons_ne_nil f failed))

theorem seqFrom_confined {ps : List Parser} (hps : ∀ p ∈ ps, t.Confines p) (index : Nat)
    (values : List Value) (c : Cursor) :
    Eval.Ensures (t.invariant c) (Outcome.Sane c) (Parser.seqFrom index values ps c) := by
  induction ps generalizing index values c with
  | nil => exact .pure (.refl c)
  | cons p ps ih =>
    refine .bind (hps p List.mem_cons_self c) fun o ho => ?_
    cases o with
    | failure f => exact .pure (Failure.spliced_ne_nil_of_kind nofun)
    | success v n =>
      have hps' : ∀ q ∈ ps, t.Confines q := fun q hq => hps q (List.mem_cons_of_mem p hq)
      have hrest := ih hps' (index + 1) (v :: values) n
      exact (onward_confined ho hrest).mono fun o' ho' => ho'.back ho

theorem repeatFrom_confined {p : Parser} (hp : t.Confines p) (c : Cursor) (values : List Value) :
    Eval.Ensures (t.invariant c) (fun r => c.Onward r.stop) (p.repeatFrom c values) := by
  induction hr : c.remaining using Nat.strongRecOn generalizing c values with
  | ind r ih =>
    subst hr
    rw [Parser.repeatFrom_eq]
    refine .bind (checkpoint_confined c) fun _ _ => .bind (hp c) fun o ho => ?_
    cases o with
    | failure f => exact .pure (.refl c)
    | success v n =>
      dsimp only
      split
      · rename_i hlt
        have hrest := ih n.remaining hlt n (v :: values) rfl
        exact (onward_confined ho hrest).mono fun r hr => .trans ho hr
      · exact .bind (emit_confined _) fun _ _ => .pure (.refl c)

theorem separatedFrom_confined {p sep : Parser} (hp : t.Confines p) (hsep : t.Confines sep)
    (c : Cursor) (values : List Value) :
    Eval.Ensures (t.invariant c) (Outcome.Sane c) (p.separatedFrom sep c values) := by
  induction hr : c.remaining using Nat.strongRecOn generalizing c values with
  | ind r ih =>
    subst hr
    rw [Parser.separatedFrom_eq]
    refine .bind (checkpoint_confined c) fun _ _ => .bind (hsep c) fun o ho => ?_
    cases o with
    | failure f => exact .pure (.refl c)
    | success w a =>
      refine .bind (hp.onward ho) fun o ho' => ?_
      cases o with
      | failure f => exact .pure (.refl c)
      | success v n =>
        have hn : c.Onward n := .trans ho ho'
        dsimp only
        split
        · rename_i hlt
          have hrest := ih n.remaining hlt n (v :: values) rfl
          exact (onward_confined hn hrest).mono fun o' ho' => ho'.back hn
        · exact .pure (.refl c)

theorem mapWith_confined {p : Parser} (hp : t.Confines p) {f : Value → Eval Reply}
    (hf : ∀ c v, Eval.Ensures (t.invariant c)
      (fun reply => ∀ e, reply.toValue p.name = .error e → e.Arises t c) (f v)) :
    t.Confines (p.mapWith f) := by
  intro c
  refine .bind (hp c) fun o ho => ?_
  cases o with
  | failure e => exact .pure ho
  | success v n =>
    refine .bind (hf c v) fun reply hreply => ?_
    cases hvalue : reply.toValue p.name with
    | ok w => exact .pure ho
    | error e => exact .bind (raise_confined (hreply e hvalue)) fun _ (h : False) => h.elim

end Computations

end Setting

/-! ## Grammars -/

/-- Delegations are confined, and inner runs keep the setting. -/
structure Links.Confined (t : Setting) (links : Links) : Prop where
  delegate : ∀ r c, t.parts.rule r →
    Eval.Ensures (t.invariant c) (Outcome.Sane c) (links.delegate r c)
  runInner : ∀ o (g : Grammar) text c, t.runs o g → g.Uses t.parts →
    Eval.Ensures (t.invariant c) (fun out => t.rules.RunsTo t.runs (.ok out))
      (links.runInner o g text)

theorem Grammar.confined {t : Setting} (hauthor : ∀ fn, ¬ t.parts.author fn) {links : Links}
    (hlinks : links.Confined t) (g : Grammar) (hg : g.Uses t.parts)
    (hstarts : g.Starts t.runs) : t.Confines (g.denote links) := by
  have hleaf : ∀ {c : Cursor} {kind : FailureKind} {d : Diagnostic},
      kind ≠ .allAlternativesFailed → (Outcome.failAt c kind d).Sane c :=
    fun h => Failure.spliced_ne_nil_of_kind h
  induction g with
  | char ch =>
    intro c
    refine .pure ?_
    dsimp only
    split
    · exact hleaf (by decide)
    · split
      · exact c.onward_advance 1
      · exact hleaf (by decide)
  | literal s =>
    intro c
    refine .pure ?_
    dsimp only
    split
    · split
      · exact c.onward_advance _
      · exact hleaf (by decide)
    · exact hleaf (by decide)
  | satisfy d p =>
    intro c
    simp only [denote, Parser.satisfy]
    cases c.head? with
    | none => exact .pure (hleaf (by decide))
    | some found =>
      refine .bind (Setting.apply_confined hg found) fun b _ => ?_
      cases b with
      | true => exact .pure (c.onward_advance 1)
      | false => exact .pure (hleaf (by decide))
  | eof =>
    intro c
    refine .pure ?_
    dsimp only
    split
    · exact hleaf (by decide)
    · exact .refl c
  | spaces =>
    intro c
    exact .pure c.onward_skipBlanks
  | either a b ha hb =>
    intro c
    refine .bind (ha hg.1 hstarts.1 c) fun o ho => ?_
    cases o with
    | success v n => exact .pure ho
    | failure f =>
      refine .bind (hb hg.2 hstarts.2 c) fun o ho' => ?_
      cases o with
      | success v n => exact .pure ho'
      | failure f' => exact Setting.noneMatched_confined List.mem_cons_self ho
  | choice p ps hp hps =>
    intro c
    have hall : ∀ q ∈ p :: ps, q.Starts t.runs := allStart_iff.1 hstarts
    simp only [denote, denoteAll_eq_map]
    refine Setting.tryEach_confined ?_ (by simp) (.inl (List.cons_ne_nil _ _)) c
    rw [← List.map_cons]
    exact List.forall_mem_map.2 fun q hq => (forall_of_uses hg hp hps q hq).2 (hall q hq)
  | both a b ha hb =>
    intro c
    refine .bind (ha hg.1 hstarts.1 c) fun o ho => ?_
    cases o with
    | failure f => exact .pure ho
    | success v n => exact hb hg.2 hstarts.2 c
  | absent p hp =>
    intro c
    refine .bind (hp hg hstarts c) fun o _ => ?_
    cases o with
    | failure f => exact .pure (.refl c)
    | success v n => exact .pure (hleaf (by decide))
  | seq p ps hp hps =>
    intro c
    have hall : ∀ q ∈ p :: ps, q.Starts t.runs := allStart_iff.1 hstarts
    simp only [denote, denoteAll_eq_map]
    refine Setting.seqFrom_confined ?_ 0 [] c
    rw [← List.map_cons]
    exact List.forall_mem_map.2 fun q hq => (forall_of_uses hg hp hps q hq).2 (hall q hq)
  | between o p q hopening hp hq =>
    intro c
    refine .bind (hopening hg.1 hstarts.1 c) fun r h₁ => ?_
    cases r with
    | failure f => exact .pure h₁
    | success u n₁ =>
      refine .bind (Setting.Confines.onward (hp hg.2.1 hstarts.2.1) h₁) fun r h₂ => ?_
      cases r with
      | failure f => exact .pure h₂
      | success v n₂ =>
        refine .bind (Setting.Confines.onward (hq hg.2.2 hstarts.2.2) (.trans h₁ h₂)) fun r h₃ => ?_
        cases r with
        | failure f => exact .pure h₃
        | success w n₃ => exact .pure (.trans h₁ (.trans h₂ h₃))
  | many p hp =>
    intro c
    exact .bind (Setting.repeatFrom_confined (hp hg hstarts) c []) fun r hr => .pure hr
  | many1 p hp =>
    intro c
    refine .bind (Setting.repeatFrom_confined (hp hg hstarts) c []) fun r hr => ?_
    obtain ⟨values, stop, ended⟩ := r
    cases values with
    | cons v vs => exact .pure hr
    | nil =>
      cases ended with
      | none => exact .pure hr
      | some f =>
        have hkind : FailureKind.insufficientRepetition ≠ .allAlternativesFailed := by decide
        exact .pure (Failure.spliced_ne_nil_of_kind hkind)
  | optional p hp =>
    intro c
    refine .bind (hp hg hstarts c) fun o ho => ?_
    cases o with
    | success v n => exact .pure ho
    | failure f => exact .pure (.refl c)
  | sepBy p sep hp hsep | sepBy1 p sep hp hsep =>
    intro c
    refine .bind (hp hg.1 hstarts.1 c) fun o ho => ?_
    cases o with
    | failure f => first | exact .pure (.refl c) | exact .pure ho
    | success v n =>
      have hrest := Setting.separatedFrom_confined (hp hg.1 hstarts.1) (hsep hg.2 hstarts.2) n [v]
      exact (Setting.onward_confined ho hrest).mono fun o' ho' => ho'.back ho
  | token p hp =>
    intro c
    refine .bind (hp hg hstarts c) fun o ho => ?_
    cases o with
    | failure f => exact .pure ho
    | success v n => exact .pure (.trans ho n.onward_skipBlanks)
  | map p fn hp =>
    refine Setting.mapWith_confined (hp hg.1 hstarts) fun c v => .pure fun e he => ?_
    exact .mapped hg.2 he
  | mapRun p options inner hp =>
    refine Setting.mapWith_confined (hp hg.2.1 hstarts.1) fun c v => ?_
    refine .bind (hlinks.runInner options inner v.text c hstarts.2 hg.2.2) fun o ho => .pure ?_
    intro e he
    cases o with
    | success w n => cases he
    | failure f =>
      cases he
      exact .innerFailed ho
  | named name p hp => exact hp hg hstarts
  | ref r => exact fun c => hlinks.delegate r c hg
  | mark label p hp =>
    intro c
    exact .bind (Setting.emit_confined _) fun _ _ => hp hg hstarts c
  | author name fn => exact absurd hg (hauthor fn)

end Descent
