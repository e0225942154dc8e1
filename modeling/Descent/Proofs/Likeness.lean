-- SUMMARY: A grammar and its outline answer alike, combinator by combinator.
import Descent.Proofs.Outline

/-! # A grammar beside its outline

An evaluation of a grammar and one of its outline end in the same way: with the same next
cursor, with failures of the same outline, or with faults of one class and at one position.
Nothing is ever decided by a name, a description, a message or a value.

Two computations are alike, `Blur.Sim`, when from related environments and states they end
in related ways; the second environment is the outline of the first one. The journals may
differ, because they name parsers. There is one lemma for each combinator, and
`Blur.denote_sim` puts them together. -/

namespace Descent

/-! ## Related answers -/

/-- Two evaluations that both answer, in related ways, or are both stopped, by faults of one
    class at one position. -/
inductive Matched {α β : Type} (R : α → β → Prop) : Except Fault α → Except Fault β → Prop
  | answer {a : α} {b : β} (h : R a b) : Matched R (.ok a) (.ok b)
  | fault {f f' : Fault} (h : f.outline = f'.outline) : Matched R (.error f) (.error f')

namespace Blur

/-- Two outcomes with the same next cursor, or with failures of the same outline. -/
inductive Same (k : Blur) : Outcome → Outcome → Prop
  | success {v w : Value} (n : Cursor) (hvalue : k.value v = k.value w) :
      Same k (.success v n) (.success w n)
  | failure {f f' : Failure} (houtline : f.outline = f'.outline) :
      Same k (.failure f) (.failure f')

variable {k : Blur}

theorem Same.refl (k : Blur) (o : Outcome) : k.Same o o := by
  cases o with
  | success v n => exact .success n rfl
  | failure f => exact .failure rfl

theorem Same.failAt {c : Cursor} (kind : FailureKind) (d d' : Diagnostic) :
    k.Same (.failAt c kind d) (.failAt c kind d') :=
  .failure rfl

theorem Same.join {o o' o'' : Outcome} (h : k.Same o o'') (h' : k.Same o' o'') : k.Same o o' := by
  cases h with
  | success n hv =>
    cases h' with
    | success _ hv' => exact .success n (hv.trans hv'.symm)
  | failure hf =>
    cases h' with
    | failure hf' => exact .failure (hf.trans hf'.symm)

/-- What both match, they match among themselves. -/
theorem Same.join_matched {r r' r'' : Except Fault Outcome} (h : Matched k.Same r r'')
    (h' : Matched k.Same r' r'') : Matched k.Same r r' := by
  cases h with
  | answer ho =>
    cases h' with
    | answer ho' => exact .answer (ho.join ho')
  | fault hf =>
    cases h' with
    | fault hf' => exact .fault (hf.trans hf'.symm)

end Blur

/-! ## Related environments and states -/

/-- What is known about a rule in the outline. Why a rule cannot be built may differ. -/
inductive Cell.Outlined (k : Blur) : Cell → Cell → Prop
  | unbuilt : Outlined k .unbuilt .unbuilt
  | building : Outlined k .building .building
  | built (g : Grammar) : Outlined k (.built g) (.built (g.outline k))
  | failed (d d' : Diagnostic) (cause cause' : Option Fault) :
      Outlined k (.failed d cause) (.failed d' cause')

/-- The second state can be that of the outline. All parts of what was built are allowed. -/
structure State.Outlined (k : Blur) (parts : Parts) (s t : State) : Prop where
  cells : ∀ r, (s.cells r).Outlined k (t.cells r)
  cancelled : t.cancelled = s.cancelled
  calls : t.calls = s.calls
  readings : t.readings = s.readings
  built : s.Use parts

namespace State.Outlined

variable {k : Blur} {parts : Parts} {s t : State}

theorem init (k : Blur) (parts : Parts) : State.Outlined k parts {} {} :=
  ⟨fun _ => .unbuilt, rfl, rfl, rfl, fun _ _ _ h => nomatch h⟩

theorem emit (h : s.Outlined k parts t) (e e' : Event) :
    (s.emit e).Outlined k parts (t.emit e') :=
  ⟨h.cells, h.cancelled, h.calls, h.readings, h.built⟩

theorem setCell (h : s.Outlined k parts t) (rule : Rule) {cell cell' : Cell}
    (hcell : cell.Outlined k cell') (huses : ∀ g, cell = .built g → g.Uses parts) :
    (s.setCell rule cell).Outlined k parts (t.setCell rule cell') := by
  refine ⟨fun r => ?_, h.cancelled, h.calls, h.readings, fun r g hr hg => ?_⟩
  · simp only [State.setCell]
    split
    · exact hcell
    · exact h.cells r
  · simp only [State.setCell] at hg
    split at hg
    · exact huses g hg
    · exact h.built r g hr hg

end State.Outlined

namespace Blur

variable {α β γ δ : Type} {k : Blur} {parts : Parts} {R : α → β → Prop} {S : γ → δ → Prop}

/-- The second environment is the outline of the first one. -/
structure Envs (k : Blur) (parts : Parts) (env env' : Env) : Prop where
  rules : env'.rules = env.rules.outline k
  clock : env'.clock = env.clock
  scope : env'.scope = env.scope
  use : env.rules.Use parts

/-! ## Computations -/

/-- Two computations end in the same way whenever they begin in the same way. -/
def Sim (k : Blur) (parts : Parts) (R : α → β → Prop) (x : Eval α) (y : Eval β) : Prop :=
  ∀ env env' s t, k.Envs parts env env' → s.Outlined k parts t →
    Matched R (x.run env s).1 (y.run env' t).1 ∧
      (x.run env s).2.Outlined k parts (y.run env' t).2

theorem Sim.pure {a : α} {b : β} (h : R a b) : k.Sim parts R (pure a) (pure b) :=
  fun _ _ _ _ _ hst => ⟨.answer h, hst⟩

theorem Sim.bind {x : Eval α} {y : Eval β} {f : α → Eval γ} {g : β → Eval δ}
    (hx : k.Sim parts R x y) (hf : ∀ a b, R a b → k.Sim parts S (f a) (g b)) :
    k.Sim parts S (x >>= f) (y >>= g) := by
  intro env env' s t henv hst
  obtain ⟨hmatched, hst₁⟩ := hx env env' s t henv hst
  rw [Eval.run_bind, Eval.run_bind]
  generalize x.run env s = u, y.run env' t = u' at hmatched hst₁ ⊢
  obtain ⟨r, s₁⟩ := u
  obtain ⟨r', t₁⟩ := u'
  cases hmatched with
  | answer h => exact hf _ _ h env env' s₁ t₁ henv hst₁
  | fault h => exact ⟨.fault h, hst₁⟩

theorem Sim.raise {f f' : Fault} (h : f.outline = f'.outline) :
    k.Sim parts R (Eval.raise f) (Eval.raise f') :=
  fun _ _ _ _ _ hst => ⟨.fault h, hst⟩

theorem Sim.ofExcept {R : α → α → Prop} (r : Except Fault α) (hR : ∀ a, R a a) :
    k.Sim parts R (Eval.ofExcept r) (Eval.ofExcept r) := by
  cases r with
  | ok a => exact .pure (hR a)
  | error f => exact .raise rfl

theorem Sim.ask : k.Sim parts (k.Envs parts) Eval.ask Eval.ask :=
  fun _ _ _ _ henv hst => ⟨.answer henv, hst⟩

theorem Sim.get : k.Sim parts (State.Outlined k parts) Eval.get Eval.get :=
  fun _ _ _ _ _ hst => ⟨.answer hst, hst⟩

theorem Sim.modify {f g : State → State}
    (h : ∀ s t, s.Outlined k parts t → (f s).Outlined k parts (g t)) :
    k.Sim parts (fun _ _ => True) (Eval.modify f) (Eval.modify g) :=
  fun _ _ s t _ hst => ⟨.answer trivial, h s t hst⟩

theorem Sim.emit (e e' : Event) : k.Sim parts (fun _ _ => True) (Eval.emit e) (Eval.emit e') :=
  .modify fun _ _ hst => hst.emit e e'

theorem Sim.closing {x : Eval α} {y : Eval β} (hx : k.Sim parts R x y) (e e' : Event) :
    k.Sim parts R (Eval.closing e x) (Eval.closing e' y) := by
  intro env env' s t henv hst
  obtain ⟨hmatched, hst₁⟩ := hx env env' s t henv hst
  exact ⟨hmatched, hst₁.emit e e'⟩

theorem Sim.attempt {x : Eval α} {y : Eval β} (hx : k.Sim parts R x y) :
    k.Sim parts (Matched R) (Eval.attempt x) (Eval.attempt y) := by
  intro env env' s t henv hst
  obtain ⟨hmatched, hst₁⟩ := hx env env' s t henv hst
  exact ⟨.answer hmatched, hst₁⟩

theorem Sim.within {x : Eval α} {y : Eval β} (hx : k.Sim parts R x y) (scope : Option Scope) :
    k.Sim parts R (Eval.within scope x) (Eval.within scope y) :=
  fun _ _ s t henv hst => hx _ _ s t ⟨henv.rules, henv.clock, rfl, henv.use⟩ hst

theorem Sim.readClock : k.Sim parts (fun a b => b = a) Eval.readClock Eval.readClock := by
  intro env env' s t henv hst
  refine ⟨.answer ?_, hst.cells, hst.cancelled, hst.calls, congrArg (· + 1) hst.readings,
    hst.built⟩
  rw [henv.clock, hst.readings]

theorem Sim.checkpoint (position : Int) :
    k.Sim parts (fun _ _ => True) (checkpoint position) (checkpoint position) := by
  refine .bind .ask fun env env' henv => ?_
  rw [henv.scope]
  cases env.scope with
  | none => exact .pure trivial
  | some scope =>
    refine .bind (.emit _ _) fun _ _ _ => .bind .get fun s t hst => ?_
    rw [hst.cancelled]
    split
    · exact .raise rfl
    · cases scope.deadline with
      | none => exact .pure trivial
      | some deadline =>
        refine .bind .readClock fun now now' hnow => ?_
        subst hnow
        exact .ofExcept _ fun _ => trivial

/-! ## Parsers -/

/-- Values and mapping functions are blurred together. A blurred list depends on its items
    only, mapping functions always answer with values, and these are the same when blurred
    if the values that they were given are. -/
structure Lawful (k : Blur) (parts : Parts) : Prop where
  list : ∀ vs ws : List Value, vs.map k.value = ws.map k.value →
    k.value (.list vs) = k.value (.list ws)
  mapping : ∀ fn, parts.mapping fn → ∀ v w, k.value v = k.value w → ∀ name name',
    ∃ v' w', (fn v).toValue name = .ok v' ∧ (k.mapping fn w).toValue name' = .ok w' ∧
      k.value v' = k.value w'
  runs : ¬ parts.mappingRuns

/-- Two parsers answer alike at every cursor. -/
def Parsers (k : Blur) (parts : Parts) (p q : Parser) : Prop :=
  ∀ c, k.Sim parts k.Same (p.fn c) (q.fn c)

theorem apply_sim (p : Predicate) (ch : Char) :
    k.Sim parts (fun a b => b = a) (p.apply ch) (p.apply ch) := by
  have hpull : ∀ t, k.Sim parts (fun _ _ => True) (Predicate.pull t) (Predicate.pull t) := by
    intro t
    refine .bind .get fun s s' hs => ?_
    rw [hs.calls]
    refine .bind (.modify fun s t h => ?_) fun _ _ _ => ?_
    · exact ⟨h.cells, h.cancelled, rfl, h.readings, h.built⟩
    · split
      · refine .bind (.emit _ _) fun _ _ _ => .modify fun s t h => ?_
        exact ⟨h.cells, rfl, h.calls, h.readings, h.built⟩
      · exact .pure trivial
  unfold Predicate.apply
  cases p.trigger with
  | none => exact .ofExcept _ fun _ => rfl
  | some t => exact .bind (hpull t) fun _ _ _ => .ofExcept _ fun _ => rfl

theorem noneMatched_sim {bs bs' : List Failure}
    (h : bs.map Failure.outline = bs'.map Failure.outline) :
    k.Sim parts k.Same (Parser.noneMatched bs) (Parser.noneMatched bs') := by
  have halternatives := Failure.alternatives?_outline h
  unfold Parser.noneMatched
  cases hf : Failure.alternatives? bs with
  | none =>
    rw [hf, Option.map_none, eq_comm, Option.map_eq_none_iff] at halternatives
    rw [halternatives]
    exact .raise rfl
  | some f =>
    rw [hf, Option.map_some, eq_comm, Option.map_eq_some_iff] at halternatives
    obtain ⟨f', hf', houtline⟩ := halternatives
    rw [hf']
    exact .pure (.failure houtline.symm)

section Combinators

variable {links links' : Links}

theorem tryEach_sim {gs : List Grammar}
    (hgs : ∀ g ∈ gs, k.Parsers parts (g.denote links) ((g.outline k).denote links'))
    {failed failed' : List Failure}
    (hfailed : failed.map Failure.outline = failed'.map Failure.outline) (c : Cursor) :
    k.Sim parts k.Same (Parser.tryEach failed (gs.map (·.denote links)) c)
      (Parser.tryEach failed' (gs.map fun g => (g.outline k).denote links') c) := by
  induction gs generalizing failed failed' with
  | nil =>
    refine noneMatched_sim ?_
    rw [List.map_reverse, hfailed, List.map_reverse]
  | cons g gs ih =>
    refine .bind (hgs g List.mem_cons_self c) fun o o' ho => ?_
    cases ho with
    | success n hv => exact .pure (.success n hv)
    | failure hf =>
      refine ih (fun g' hg' => hgs g' (List.mem_cons_of_mem g hg')) ?_
      rw [List.map_cons, List.map_cons, hf, hfailed]

theorem map_reverse_eq {φ : Value → Value} {vs ws : List Value} (h : vs.map φ = ws.map φ) :
    vs.reverse.map φ = ws.reverse.map φ := by
  rw [List.map_reverse, h, List.map_reverse]

theorem map_cons_eq {φ : Value → Value} {v w : Value} {vs ws : List Value} (hv : φ v = φ w)
    (h : vs.map φ = ws.map φ) : (v :: vs).map φ = (w :: ws).map φ := by
  rw [List.map_cons, hv, h, List.map_cons]

theorem seqFrom_sim (hk : k.Lawful parts) {gs : List Grammar}
    (hgs : ∀ g ∈ gs, k.Parsers parts (g.denote links) ((g.outline k).denote links'))
    (index : Nat) {values values' : List Value}
    (hvalues : values.map k.value = values'.map k.value) (c : Cursor) :
    k.Sim parts k.Same (Parser.seqFrom index values (gs.map (·.denote links)) c)
      (Parser.seqFrom index values' (gs.map fun g => (g.outline k).denote links') c) := by
  induction gs generalizing index values values' c with
  | nil => exact .pure (.success c (hk.list _ _ (map_reverse_eq hvalues)))
  | cons g gs ih =>
    refine .bind (hgs g List.mem_cons_self c) fun o o' ho => ?_
    cases ho with
    | failure hf => exact .pure (.failure (Failure.ofElement_outline hf index))
    | success n hv =>
      exact ih (fun g' hg' => hgs g' (List.mem_cons_of_mem g hg')) (index + 1)
        (map_cons_eq hv hvalues) n

/-- Two repetitions that end at the same cursor, with the same failure in outline. -/
structure SameRepetition (k : Blur) (r r' : Repetition) : Prop where
  values : r.values.map k.value = r'.values.map k.value
  stop : r'.stop = r.stop
  ended : r.ended.map Failure.outline = r'.ended.map Failure.outline

theorem repeatFrom_sim {p q : Parser} (hp : k.Parsers parts p q) (c : Cursor)
    {values values' : List Value} (hvalues : values.map k.value = values'.map k.value) :
    k.Sim parts k.SameRepetition (p.repeatFrom c values) (q.repeatFrom c values') := by
  induction hr : c.remaining using Nat.strongRecOn generalizing c values values' with
  | ind r ih =>
    subst hr
    rw [Parser.repeatFrom_eq, Parser.repeatFrom_eq]
    refine .bind (.checkpoint _) fun _ _ _ => .bind (hp c) fun o o' ho => ?_
    cases ho with
    | failure hf => exact .pure ⟨map_reverse_eq hvalues, rfl, congrArg some hf⟩
    | success n hv =>
      dsimp only
      split
      · exact ih n.remaining ‹_› n (map_cons_eq hv hvalues) rfl
      · refine .bind (.emit _ _) fun _ _ _ => .pure ⟨?_, rfl, rfl⟩
        exact map_reverse_eq (map_cons_eq hv hvalues)

theorem separatedFrom_sim (hk : k.Lawful parts) {p q sep sep' : Parser}
    (hp : k.Parsers parts p q) (hsep : k.Parsers parts sep sep') (c : Cursor)
    {values values' : List Value} (hvalues : values.map k.value = values'.map k.value) :
    k.Sim parts k.Same (p.separatedFrom sep c values) (q.separatedFrom sep' c values') := by
  have hstop (c : Cursor) {values values' : List Value}
      (hvalues : values.map k.value = values'.map k.value) :
      k.Same (.success (.list values.reverse) c) (.success (.list values'.reverse) c) :=
    .success c (hk.list _ _ (map_reverse_eq hvalues))
  induction hr : c.remaining using Nat.strongRecOn generalizing c values values' with
  | ind r ih =>
    subst hr
    rw [Parser.separatedFrom_eq, Parser.separatedFrom_eq]
    refine .bind (.checkpoint _) fun _ _ _ => .bind (hsep c) fun o o' ho => ?_
    cases ho with
    | failure _ => exact .pure (hstop c hvalues)
    | success a _ =>
      refine .bind (hp a) fun o o' ho => ?_
      cases ho with
      | failure _ => exact .pure (hstop c hvalues)
      | success n hv =>
        dsimp only
        split
        · exact ih n.remaining ‹_› n (map_cons_eq hv hvalues) rfl
        · exact .pure (hstop c hvalues)

/-! ## Grammars -/

/-- Delegations answer alike. -/
def Linked (k : Blur) (parts : Parts) (links links' : Links) : Prop :=
  ∀ r, parts.rule r → ∀ c, k.Sim parts k.Same (links.delegate r c) (links'.delegate r c)

/-- A grammar and its outline answer alike. -/
theorem denote_sim (hk : k.Lawful parts) (hlinks : k.Linked parts links links') (g : Grammar)
    (hg : g.Uses parts) : k.Parsers parts (g.denote links) ((g.outline k).denote links') := by
  induction g with
  | char ch | literal s | eof | spaces =>
    intro c
    exact .pure (.refl k _)
  | satisfy d p =>
    intro c
    simp only [Grammar.outline, Grammar.denote, Parser.satisfy]
    cases c.head? with
    | none => exact .pure (.failAt _ _ _)
    | some found =>
      refine .bind (apply_sim p found) fun b b' hb => ?_
      subst hb
      cases b' with
      | true => exact .pure (.refl k _)
      | false => exact .pure (.failAt _ _ _)
  | either a b ha hb =>
    intro c
    refine .bind (ha hg.1 c) fun o o' ho => ?_
    cases ho with
    | success n hv => exact .pure (.success n hv)
    | failure hf =>
      refine .bind (hb hg.2 c) fun o o' ho => ?_
      cases ho with
      | success n hv => exact .pure (.success n hv)
      | failure hf' =>
        refine noneMatched_sim ?_
        simp only [List.map_cons, List.map_nil, hf, hf']
  | choice p ps hp hps =>
    intro c
    have hall : ∀ q ∈ p :: ps, k.Parsers parts (q.denote links) ((q.outline k).denote links') :=
      fun q hq => (Grammar.forall_of_uses hg hp hps q hq).2
    simp only [Grammar.outline, Grammar.denote, Grammar.denoteAll_eq_map,
      Grammar.outlineAll_eq_map, List.map_map]
    exact tryEach_sim hall rfl c
  | both a b ha hb =>
    intro c
    refine .bind (ha hg.1 c) fun o o' ho => ?_
    cases ho with
    | failure hf => exact .pure (.failure hf)
    | success n hv => exact hb hg.2 c
  | absent p hp =>
    intro c
    refine .bind (hp hg c) fun o o' ho => ?_
    cases ho with
    | failure hf => exact .pure (.refl k _)
    | success n hv => exact .pure (.failAt _ _ _)
  | seq p ps hp hps =>
    intro c
    have hall : ∀ q ∈ p :: ps, k.Parsers parts (q.denote links) ((q.outline k).denote links') :=
      fun q hq => (Grammar.forall_of_uses hg hp hps q hq).2
    simp only [Grammar.outline, Grammar.denote, Grammar.denoteAll_eq_map,
      Grammar.outlineAll_eq_map, List.map_map]
    exact seqFrom_sim hk hall 0 rfl c
  | between o p q ho hp hq =>
    intro c
    refine .bind (ho hg.1 c) fun r r' h => ?_
    cases h with
    | failure hf => exact .pure (.failure hf)
    | success n₁ _ =>
      refine .bind (hp hg.2.1 n₁) fun r r' h => ?_
      cases h with
      | failure hf => exact .pure (.failure hf)
      | success n₂ hv =>
        refine .bind (hq hg.2.2 n₂) fun r r' h => ?_
        cases h with
        | failure hf => exact .pure (.failure hf)
        | success n₃ _ => exact .pure (.success n₃ hv)
  | many p hp =>
    intro c
    refine .bind (repeatFrom_sim (hp hg) c rfl) fun r r' h => ?_
    rw [h.stop]
    exact .pure (.success _ (hk.list _ _ h.values))
  | many1 p hp =>
    intro c
    refine .bind (repeatFrom_sim (hp hg) c rfl) fun r r' h => ?_
    obtain ⟨values, _, ended⟩ := r
    obtain ⟨values', stop, ended'⟩ := r'
    obtain ⟨hvalues, rfl, hended⟩ := h
    have hsuccess : k.Same (.success (.list values) stop) (.success (.list values') stop) :=
      .success stop (hk.list _ _ hvalues)
    cases values with
    | cons v vs =>
      cases values' with
      | nil => cases hvalues
      | cons w ws => exact .pure hsuccess
    | nil =>
      cases values' with
      | cons w ws => cases hvalues
      | nil =>
        cases ended with
        | none =>
          cases ended' with
          | some f' => cases hended
          | none => exact .pure hsuccess
        | some f =>
          cases ended' with
          | none => cases hended
          | some f' =>
            have hf : f.outline = f'.outline := Option.some.inj hended
            exact .pure (.failure (Failure.insufficient_outline hf _ _ c))
  | optional p hp =>
    intro c
    refine .bind (hp hg c) fun o o' ho => ?_
    cases ho with
    | success n hv => exact .pure (.success n hv)
    | failure _ => exact .pure (.refl k _)
  | sepBy p sep hp hsep =>
    intro c
    refine .bind (hp hg.1 c) fun o o' ho => ?_
    cases ho with
    | failure _ => exact .pure (.refl k _)
    | success n hv => exact separatedFrom_sim hk (hp hg.1) (hsep hg.2) n (map_cons_eq hv rfl)
  | sepBy1 p sep hp hsep =>
    intro c
    refine .bind (hp hg.1 c) fun o o' ho => ?_
    cases ho with
    | failure hf => exact .pure (.failure hf)
    | success n hv => exact separatedFrom_sim hk (hp hg.1) (hsep hg.2) n (map_cons_eq hv rfl)
  | token p hp =>
    intro c
    refine .bind (hp hg c) fun o o' ho => ?_
    cases ho with
    | failure hf => exact .pure (.failure hf)
    | success n hv => exact .pure (.success _ hv)
  | map p fn hp =>
    intro c
    refine .bind (hp hg.1 c) fun o o' ho => ?_
    cases ho with
    | failure hf => exact .pure (.failure hf)
    | @success v w n hv =>
      obtain ⟨v', w', hv', hw', hvalue⟩ := hk.mapping fn hg.2 v w hv
        (p.denote links).name ((p.outline k).denote links').name
      dsimp only
      rw [Eval.pure_bind, Eval.pure_bind, hv', hw']
      exact .pure (.success n hvalue)
  | mapRun p options inner hp hinner => exact absurd hg.1 hk.runs
  | named name p hp => exact hp hg
  | ref r => exact hlinks r hg
  | mark label p hp =>
    intro c
    exact .bind (.emit _ _) fun _ _ _ => hp hg c
  | author name fn =>
    intro c
    exact .pure (.refl k _)

end Combinators

end Blur

end Descent
