-- SUMMARY: What holds of the steps of an evaluation and is kept by putting them together holds of all grammars.
import Descent.Proofs.Parts

/-! # Disciplines

A discipline is a property of computations that a sequence of computations has
when its parts have it. Many facts about evaluations are of this kind: that a
computation changes the state only in a certain way, or that its answer does not
depend on part of the state. The parsers of a grammar are made from a few steps,
from delegations to rules and from inner runs, so they obey a discipline that
these obey: `Grammar.obeys`.

Nothing is asked of the functions that authors wrote, apart from predicates with
triggers, which change the state. -/

namespace Descent

/-- The event says something about a parser that was tried. -/
def Event.IsRemark : Event → Prop
  | .mark _ _ => True
  | .zeroWidth _ _ => True
  | _ => False

namespace Grammar

mutual
/-- The mapping functions in a grammar start runs under such options only. -/
def RunsUnder (options : RunOptions → Prop) : Grammar → Prop
  | .char _ => True
  | .literal _ => True
  | .satisfy _ _ => True
  | .eof => True
  | .spaces => True
  | .either a b => a.RunsUnder options ∧ b.RunsUnder options
  | .choice p ps => p.RunsUnder options ∧ AllRunUnder options ps
  | .both a b => a.RunsUnder options ∧ b.RunsUnder options
  | .absent p => p.RunsUnder options
  | .seq p ps => p.RunsUnder options ∧ AllRunUnder options ps
  | .between o p c => o.RunsUnder options ∧ p.RunsUnder options ∧ c.RunsUnder options
  | .many p => p.RunsUnder options
  | .many1 p => p.RunsUnder options
  | .optional p => p.RunsUnder options
  | .sepBy p sep => p.RunsUnder options ∧ sep.RunsUnder options
  | .sepBy1 p sep => p.RunsUnder options ∧ sep.RunsUnder options
  | .token p => p.RunsUnder options
  | .map p _ => p.RunsUnder options
  | .mapRun p o inner => options o ∧ p.RunsUnder options ∧ inner.RunsUnder options
  | .named _ p => p.RunsUnder options
  | .ref _ => True
  | .mark _ p => p.RunsUnder options
  | .author _ _ => True

/-- The mapping functions in several grammars start runs under such options only. -/
def AllRunUnder (options : RunOptions → Prop) : List Grammar → Prop
  | [] => True
  | p :: ps => p.RunsUnder options ∧ AllRunUnder options ps
end

theorem allRunUnder_iff {options : RunOptions → Prop} {gs : List Grammar} :
    AllRunUnder options gs ↔ ∀ g ∈ gs, g.RunsUnder options := by
  induction gs with
  | nil => simp [AllRunUnder]
  | cons g gs ih => simp [AllRunUnder, ih]

/-- Where nothing is asked of the options, nothing is asked of the grammar. -/
theorem runsUnder_all (g : Grammar) : g.RunsUnder fun _ => True := by
  induction g with
  | char | literal | satisfy | eof | spaces | ref | author => trivial
  | choice p ps hp hps | seq p ps hp hps => exact ⟨hp, allRunUnder_iff.2 hps⟩
  | either a b ha hb | both a b ha hb | sepBy a b ha hb | sepBy1 a b ha hb => exact ⟨ha, hb⟩
  | between o p c ho hp hc => exact ⟨ho, hp, hc⟩
  | absent p hp | many p hp | many1 p hp | optional p hp | token p hp => exact hp
  | named _ p hp | mark _ p hp => exact hp
  | map p f hp => exact hp
  | mapRun p o inner hp hi => exact ⟨trivial, hp, hi⟩

end Grammar

/-- A property of computations. -/
structure Discipline where
  /-- What may occur in the grammars and in the builders. -/
  parts : Parts := {}
  /-- The options under which mapping functions may start runs. -/
  options : RunOptions → Prop := fun _ => True
  Obeys : {α : Type} → Eval α → Prop

namespace Discipline

/-- Steps obey the discipline, and so do sequences of computations that do. -/
structure Lawful (D : Discipline) : Prop where
  pure : ∀ {α : Type} (a : α), D.Obeys (pure a : Eval α)
  bind : ∀ {α β : Type} {x : Eval α} {f : α → Eval β},
    D.Obeys x → (∀ a, D.Obeys (f a)) → D.Obeys (x >>= f)
  raise : ∀ {α : Type} (f : Fault), D.Obeys (Eval.raise f : Eval α)
  remark : ∀ {e : Event}, e.IsRemark → D.Obeys (Eval.emit e)
  checkpoint : ∀ position, D.Obeys (checkpoint position)
  apply : ∀ {p : Predicate}, D.parts.predicate p → ∀ ch, D.Obeys (p.apply ch)

variable {D : Discipline}

theorem Lawful.ofExcept (hD : D.Lawful) {α : Type} (r : Except Fault α) :
    D.Obeys (Eval.ofExcept r) := by
  cases r with
  | ok a => exact hD.pure a
  | error f => exact hD.raise f

/-! ## Parsers -/

/-- The parser obeys the discipline at every cursor. -/
def Parses (D : Discipline) (p : Parser) : Prop := ∀ c, D.Obeys (p.fn c)

theorem noneMatched_obeys (hD : D.Lawful) (failed : List Failure) :
    D.Obeys (Parser.noneMatched failed) := by
  unfold Parser.noneMatched
  cases Failure.alternatives? failed with
  | some f => exact hD.pure _
  | none => exact hD.raise _

theorem tryEach_obeys (hD : D.Lawful) {ps : List Parser} (hps : ∀ p ∈ ps, D.Parses p)
    (failed : List Failure) (c : Cursor) : D.Obeys (Parser.tryEach failed ps c) := by
  induction ps generalizing failed with
  | nil => exact noneMatched_obeys hD _
  | cons p ps ih =>
    refine hD.bind (hps p List.mem_cons_self c) fun o => ?_
    cases o with
    | success v n => exact hD.pure _
    | failure f => exact ih (fun q hq => hps q (List.mem_cons_of_mem p hq)) (f :: failed)

theorem seqFrom_obeys (hD : D.Lawful) {ps : List Parser} (hps : ∀ p ∈ ps, D.Parses p)
    (index : Nat) (values : List Value) (c : Cursor) :
    D.Obeys (Parser.seqFrom index values ps c) := by
  induction ps generalizing index values c with
  | nil => exact hD.pure _
  | cons p ps ih =>
    refine hD.bind (hps p List.mem_cons_self c) fun o => ?_
    cases o with
    | failure f => exact hD.pure _
    | success v n =>
      exact ih (fun q hq => hps q (List.mem_cons_of_mem p hq)) (index + 1) (v :: values) n

theorem repeatFrom_obeys (hD : D.Lawful) {p : Parser} (hp : D.Parses p) (c : Cursor)
    (values : List Value) : D.Obeys (p.repeatFrom c values) := by
  induction hr : c.remaining using Nat.strongRecOn generalizing c values with
  | ind r ih =>
    subst hr
    rw [Parser.repeatFrom_eq]
    refine hD.bind (hD.checkpoint _) fun _ => hD.bind (hp c) fun o => ?_
    cases o with
    | failure f => exact hD.pure _
    | success v n =>
      dsimp only
      split
      · exact ih n.remaining ‹_› n (v :: values) rfl
      · exact hD.bind (hD.remark trivial) fun _ => hD.pure _

theorem separatedFrom_obeys (hD : D.Lawful) {p sep : Parser} (hp : D.Parses p)
    (hsep : D.Parses sep) (c : Cursor) (values : List Value) :
    D.Obeys (p.separatedFrom sep c values) := by
  induction hr : c.remaining using Nat.strongRecOn generalizing c values with
  | ind r ih =>
    subst hr
    rw [Parser.separatedFrom_eq]
    refine hD.bind (hD.checkpoint _) fun _ => hD.bind (hsep c) fun o => ?_
    cases o with
    | failure f => exact hD.pure _
    | success w a =>
      refine hD.bind (hp a) fun o => ?_
      cases o with
      | failure f => exact hD.pure _
      | success v n =>
        dsimp only
        split
        · exact ih n.remaining ‹_› n (v :: values) rfl
        · exact hD.pure _

theorem mapWith_obeys (hD : D.Lawful) {p : Parser} (hp : D.Parses p) {f : Value → Eval Reply}
    (hf : ∀ v, D.Obeys (f v)) : D.Parses (p.mapWith f) := by
  intro c
  refine hD.bind (hp c) fun o => ?_
  cases o with
  | failure e => exact hD.pure _
  | success v n =>
    refine hD.bind (hf v) fun reply => ?_
    exact hD.bind (hD.ofExcept _) fun w => hD.pure _

end Discipline

/-- A run over a source that is not too large goes on with its scope. -/
theorem Parser.run_eq (p : Parser) (o : RunOptions) (source : Source) :
    p.run o source =
      if o.rejects source.size then Eval.raise (.sourceTooLarge source.size o.maxSize)
      else (do
        let scope ← openScope o.maxDepth o.timeout o.watched
        Eval.emit (.running p.name source.size)
        let outcome ← Eval.closing .ended (Eval.within (some scope) (p.fn (.start source)))
        p.conclude (outcome.whole o)) := by
  unfold Parser.run
  split <;> rfl

/-! ## Grammars -/

/-- Delegations and inner runs obey the discipline. -/
structure Links.Obey (D : Discipline) (links : Links) : Prop where
  delegate : ∀ r c, D.parts.rule r → D.Obeys (links.delegate r c)
  runInner : D.parts.mappingRuns → ∀ o (g : Grammar) text, D.options o → g.Uses D.parts →
    g.RunsUnder D.options → D.Obeys (links.runInner o g text)

theorem Grammar.obeys {D : Discipline} (hD : D.Lawful) {links : Links} (hlinks : links.Obey D)
    (g : Grammar) (hg : g.Uses D.parts) (ho : g.RunsUnder D.options) :
    D.Parses (g.denote links) := by
  induction g with
  | char | literal | eof | spaces | author =>
    intro c
    exact hD.pure _
  | satisfy d p =>
    intro c
    simp only [denote, Parser.satisfy]
    cases c.head? with
    | none => exact hD.pure _
    | some found =>
      refine hD.bind (hD.apply hg found) fun b => ?_
      cases b with
      | true => exact hD.pure _
      | false => exact hD.pure _
  | either a b ha hb =>
    intro c
    refine hD.bind (ha hg.1 ho.1 c) fun o => ?_
    cases o with
    | success v n => exact hD.pure _
    | failure f =>
      refine hD.bind (hb hg.2 ho.2 c) fun o => ?_
      cases o with
      | success v n => exact hD.pure _
      | failure f' => exact Discipline.noneMatched_obeys hD _
  | choice p ps hp hps =>
    intro c
    have hruns : ∀ q ∈ p :: ps, q.RunsUnder D.options := allRunUnder_iff.1 ho
    simp only [denote, denoteAll_eq_map]
    refine Discipline.tryEach_obeys hD ?_ [] c
    rw [← List.map_cons]
    exact List.forall_mem_map.2 fun q hq => (forall_of_uses hg hp hps q hq).2 (hruns q hq)
  | both a b ha hb =>
    intro c
    refine hD.bind (ha hg.1 ho.1 c) fun o => ?_
    cases o with
    | failure f => exact hD.pure _
    | success v n => exact hb hg.2 ho.2 c
  | absent p hp | optional p hp | token p hp =>
    intro c
    refine hD.bind (hp hg ho c) fun o => ?_
    cases o with
    | success v n => exact hD.pure _
    | failure f => exact hD.pure _
  | seq p ps hp hps =>
    intro c
    have hruns : ∀ q ∈ p :: ps, q.RunsUnder D.options := allRunUnder_iff.1 ho
    simp only [denote, denoteAll_eq_map]
    refine Discipline.seqFrom_obeys hD ?_ 0 [] c
    rw [← List.map_cons]
    exact List.forall_mem_map.2 fun q hq => (forall_of_uses hg hp hps q hq).2 (hruns q hq)
  | between o p q hopening hp hq =>
    intro c
    refine hD.bind (hopening hg.1 ho.1 c) fun r => ?_
    cases r with
    | failure f => exact hD.pure _
    | success u n₁ =>
      refine hD.bind (hp hg.2.1 ho.2.1 n₁) fun r => ?_
      cases r with
      | failure f => exact hD.pure _
      | success v n₂ =>
        refine hD.bind (hq hg.2.2 ho.2.2 n₂) fun r => ?_
        cases r with
        | failure f => exact hD.pure _
        | success w n₃ => exact hD.pure _
  | many p hp =>
    intro c
    exact hD.bind (Discipline.repeatFrom_obeys hD (hp hg ho) c []) fun r => hD.pure _
  | many1 p hp =>
    intro c
    refine hD.bind (Discipline.repeatFrom_obeys hD (hp hg ho) c []) fun r => ?_
    obtain ⟨values, stop, ended⟩ := r
    cases values with
    | cons v vs => exact hD.pure _
    | nil => cases ended <;> exact hD.pure _
  | sepBy p sep hp hsep | sepBy1 p sep hp hsep =>
    intro c
    refine hD.bind (hp hg.1 ho.1 c) fun o => ?_
    cases o with
    | failure f => exact hD.pure _
    | success v n =>
      exact Discipline.separatedFrom_obeys hD (hp hg.1 ho.1) (hsep hg.2 ho.2) n [v]
  | map p fn hp => exact Discipline.mapWith_obeys hD (hp hg.1 ho) fun v => hD.pure _
  | mapRun p options inner hp =>
    refine Discipline.mapWith_obeys hD (hp hg.2.1 ho.2.1) fun v => ?_
    have hinner := hlinks.runInner hg.1 options inner v.text ho.1 hg.2.2 ho.2.2
    refine hD.bind hinner fun o => ?_
    exact hD.pure _
  | named name p hp => exact hp hg ho
  | ref r => exact fun c => hlinks.delegate r c hg
  | mark label p hp =>
    intro c
    exact hD.bind (hD.remark trivial) fun _ => hp hg ho c

/-! ## Builders

What a builder hands back settles what is known about its rule, and from then on
that decides what a use of the rule gets. -/

/-- The builder of a rule has just been started. -/
def State.starting (s : State) (rule : Rule) : State :=
  (s.setCell rule .building).emit (.building rule)

namespace Cell

/-- The builder of the rule is over. -/
def IsSettled : Cell → Prop
  | .built _ => True
  | .failed _ _ => True
  | _ => False

/-- What is known about a rule after its builder. -/
def ofBuilder (name : String) : Except Fault (Grammar ⊕ Plain) → Cell
  | .ok (.inl g) => .built g
  | .ok (.inr p) => .failed (.builderInvalid name p) none
  | .error f => .failed (.builderFailed name f.errorClass.name f.message) (some f)

/-- What a use of the rule gets, unless the builder has to be started first. -/
def answer? (name : String) : Cell → Option (Except Fault Grammar)
  | .unbuilt => none
  | .building => some (.error (.grammar (.reentrantBuild name) none))
  | .built g => some (.ok g)
  | .failed d cause => some (.error (.grammar d cause))

theorem answer?_eq_none_iff {name : String} {cell : Cell} :
    cell.answer? name = none ↔ cell = .unbuilt := by
  cases cell <;> simp [answer?]

theorem isSettled_ofBuilder (name : String) (b : Except Fault (Grammar ⊕ Plain)) :
    (ofBuilder name b).IsSettled := by
  obtain f | g | p := b <;> trivial

end Cell

/-- The event neither opens nor closes anything, and no builder is started. -/
def Event.IsPlain : Event → Prop
  | .running _ _ => False
  | .ended => False
  | .building _ => False
  | .opened _ _ _ => False
  | .closed _ => False
  | _ => True

theorem run_resolve_of_answer {runInner : RunGrammar} {r : Rule} {env : Env} {s : State}
    {a : Except Fault Grammar} (h : (s.cells r).answer? (env.ruleName r) = some a) :
    (resolve runInner r).run env s = (a, s) := by
  unfold resolve
  rw [Eval.run_bind, Eval.run_get]
  cases hcell : s.cells r with
  | unbuilt => simp [hcell, Cell.answer?] at h
  | building | built | failed =>
    rw [hcell] at h
    cases h
    simp only [hcell]
    rfl

/-- A rule that was not built before is what its builder makes of it. -/
theorem run_resolve_of_unbuilt (runInner : RunGrammar) {r : Rule} (env : Env) {s : State}
    (h : s.cells r = .unbuilt) :
    ∃ b t e a, ((env.rules r).body.build runInner r).run env (s.starting r) = (b, t) ∧
      e.IsPlain ∧ (Cell.ofBuilder (env.ruleName r) b).answer? (env.ruleName r) = some a ∧
      (resolve runInner r).run env s =
        (a, (t.emit e).setCell r (Cell.ofBuilder (env.ruleName r) b)) := by
  have hresolve : (resolve runInner r).run env s = (buildRule runInner r).run env s := by
    unfold resolve
    rw [Eval.run_bind, Eval.run_get]
    simp only [h]
  rw [hresolve]
  cases hrun : ((env.rules r).body.build runInner r).run env (s.starting r) with
  | mk b t =>
    have hattempt : ((env.rules r).body.build runInner r).run env
        ((s.setCell r .building).emit (.building r)) = (b, t) := hrun
    simp only [buildRule, Eval.run_bind, Eval.run_ask, Eval.run_modify, Eval.run_emit,
      Eval.run_attempt, hattempt]
    refine ⟨b, t, ?_⟩
    obtain f | g | p := b
    · exact ⟨.builderFailed _ _, _, rfl, trivial, rfl, rfl⟩
    · exact ⟨.built _ _, _, rfl, trivial, rfl, rfl⟩
    · exact ⟨.builderInvalid _ _, _, rfl, trivial, rfl, rfl⟩

/-! ## Changes of the state

Often the property is that a computation changes the state only as some relation
permits, whether it answers or is stopped. -/

/-- A relation of states that permits plain events, all changes that neither the
    journal nor the cells show, and to settle a rule whose builder was started. -/
structure Change (R : State → State → Prop) : Prop where
  refl : ∀ s, R s s
  trans : ∀ {s t u}, R s t → R t u → R s u
  plain : ∀ {e : Event}, e.IsPlain → ∀ s, R s (s.emit e)
  silent : ∀ {s t : State}, t.cells = s.cells → t.journal = s.journal → R s t
  settle : ∀ {s t : State} {r : Rule} {cell : Cell}, s.cells r = .unbuilt → R (s.starting r) t →
    cell.IsSettled → R s (t.setCell r cell)

namespace Discipline

/-- Computations that change the state, in the environments of a kind, only as a
    relation permits. -/
def changing (kind : Env → Prop) (R : State → State → Prop) : Discipline where
  Obeys := fun x => ∀ env s, kind env → R s (x.run env s).2

section Changing

variable {α β : Type} {kind : Env → Prop} {R : State → State → Prop} {x : Eval α}

theorem emit_changes (hR : Change R) {e : Event} (he : e.IsPlain) :
    (changing kind R).Obeys (Eval.emit e) := fun _ s _ => hR.plain he s

theorem modify_changes (hR : Change R) {f : State → State} (hcells : ∀ s, (f s).cells = s.cells)
    (hjournal : ∀ s, (f s).journal = s.journal) : (changing kind R).Obeys (Eval.modify f) :=
  fun _ s _ => hR.silent (hcells s) (hjournal s)

theorem bind_changes (hR : Change R) {f : α → Eval β} (hx : (changing kind R).Obeys x)
    (hf : ∀ a, (changing kind R).Obeys (f a)) : (changing kind R).Obeys (x >>= f) := by
  intro env s henv
  have h := hx env s henv
  rw [Eval.run_bind]
  cases hrun : x.run env s with
  | mk r t =>
    rw [hrun] at h
    cases r with
    | error e => exact h
    | ok a => exact hR.trans h (hf a env t henv)

/-- What a computation changes, it changes also when it is attempted. -/
theorem attempt_changes (hx : (changing kind R).Obeys x) :
    (changing kind R).Obeys (Eval.attempt x) := hx

theorem changing_lawful (hR : Change R) : (changing kind R).Lawful where
  pure := fun _ _ s _ => hR.refl s
  bind := bind_changes hR
  raise := fun _ _ s _ => hR.refl s
  remark := by
    intro e he
    refine emit_changes hR ?_
    cases e <;> trivial
  checkpoint := by
    intro position
    refine bind_changes hR (fun _ s _ => hR.refl s) fun env => ?_
    cases env.scope with
    | none => exact fun _ s _ => hR.refl s
    | some scope =>
      refine bind_changes hR (emit_changes hR trivial) fun _ => ?_
      refine bind_changes hR (fun _ s _ => hR.refl s) fun s => ?_
      split
      · exact fun _ s _ => hR.refl s
      · cases scope.deadline with
        | none => exact fun _ s _ => hR.refl s
        | some deadline =>
          refine bind_changes hR (fun _ s _ => hR.silent rfl rfl) fun now => ?_
          exact fun _ s _ => hR.refl s
  apply := by
    intro p _ ch
    have hpull : ∀ t, (changing kind R).Obeys (Predicate.pull t) := by
      intro t
      refine bind_changes hR (fun _ s _ => hR.refl s) fun s => ?_
      refine bind_changes hR (modify_changes hR (fun _ => rfl) fun _ => rfl) fun _ => ?_
      split
      · refine bind_changes hR (emit_changes hR trivial) fun _ => ?_
        exact modify_changes hR (fun _ => rfl) fun _ => rfl
      · exact fun _ s _ => hR.refl s
    unfold Predicate.apply
    cases p.trigger with
    | none => exact fun _ s _ => hR.refl s
    | some t => exact bind_changes hR (hpull t) fun _ _ s _ => hR.refl s

/-- All changes that a builder makes are changes of the runs that it starts. -/
theorem build_changes (hR : Change R) {runInner : RunGrammar}
    (hrun : ∀ o g text, (changing kind R).Obeys (runInner o g text)) (rule : Rule) (b : Body) :
    (changing kind R).Obeys (b.build runInner rule) := by
  induction b with
  | grammar | plain | raise => exact fun _ s _ => hR.refl s
  | run used source next ih => exact bind_changes hR (hrun _ _ _) fun _ => ih
  | tryRun used source next ih =>
    refine bind_changes hR (attempt_changes (hrun _ _ _)) fun r => ?_
    cases r with
    | ok o => exact ih
    | error f =>
      dsimp only
      split
      · exact bind_changes hR (emit_changes hR trivial) fun _ => ih
      · exact fun _ s _ => hR.refl s

theorem resolve_changes (hR : Change R) {runInner : RunGrammar}
    (hrun : ∀ o g text, (changing kind R).Obeys (runInner o g text)) (rule : Rule) :
    (changing kind R).Obeys (resolve runInner rule) := by
  intro env s henv
  cases hanswer : (s.cells rule).answer? (env.ruleName rule) with
  | some a =>
    rw [run_resolve_of_answer hanswer]
    exact hR.refl s
  | none =>
    have hcell : s.cells rule = .unbuilt := Cell.answer?_eq_none_iff.1 hanswer
    obtain ⟨b, t, e, a, hb, he, -, hresolve⟩ := run_resolve_of_unbuilt runInner env hcell
    have hbuild := build_changes hR hrun rule (env.rules rule).body env (s.starting rule) henv
    rw [hb] at hbuild
    rw [hresolve]
    exact hR.settle hcell (hR.trans hbuild (hR.plain he t)) (Cell.isSettled_ofBuilder _ _)

theorem refuse_changes (hR : Change R) (rule : Rule) (position : Nat) :
    (changing kind R).Obeys (refuse rule position : Eval α) := by
  refine bind_changes hR (fun _ s _ => hR.refl s) fun env => ?_
  cases env.scope with
  | none => exact fun _ s _ => hR.refl s
  | some scope => exact bind_changes hR (emit_changes hR trivial) fun _ _ s _ => hR.refl s

/-- A scope is opened with the guard that was asked for. -/
theorem openScope_changes (hR : Change R) {maxDepth : Int} {timeout : Option Timeout}
    {watched : Bool} {f : Scope → Eval α}
    (hf : ∀ deadline, (changing kind R).Obeys (f ⟨.ofRequested maxDepth, deadline, watched⟩)) :
    (changing kind R).Obeys (openScope maxDepth timeout watched >>= f) := by
  have hnote : (changing kind R).Obeys (noteLowered maxDepth) := by
    unfold noteLowered StackBudget.lowered?
    split
    · rename_i e he
      split at he <;> cases he
      exact emit_changes hR trivial
    · exact fun _ s _ => hR.refl s
  unfold openScope
  rw [Eval.bind_assoc]
  refine bind_changes hR hnote fun _ => ?_
  cases timeout with
  | none => exact hf none
  | some t =>
    rw [Eval.bind_assoc]
    refine bind_changes hR (fun _ s _ => hR.silent rfl rfl) fun now => ?_
    rw [Eval.bind_assoc]
    exact bind_changes hR (fun _ s _ => hR.refl s) fun seconds => hf _

theorem conclude_changes (hR : Change R) (p : Parser) (o : Outcome) :
    (changing kind R).Obeys (p.conclude o) := by
  cases o with
  | success v n => exact fun _ s _ => hR.refl s
  | failure f => exact bind_changes hR (emit_changes hR trivial) fun _ _ s _ => hR.refl s

end Changing

end Discipline

end Descent
