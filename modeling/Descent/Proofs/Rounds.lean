-- SUMMARY: A repetition tries its parser in turn until it fails or matches nothing, and says so in its answer.
import Descent.Proofs.Soundness

/-! # Rounds of a repetition

A repetition is a chain of rounds. All of them but the last match and move on, and the last
one fails or matches nothing. Where the parser is deterministic and does not move back there
is exactly one such chain from each cursor: `MovesOn.exists_course` and `Course.unique`. The
repetition answers with the values of the chain, and the repetition that has to match once
only differs from it where the chain has no round before the last and that one fails:
`Parser.many_course`. -/

namespace Descent

/-- A computation that answers after another one begins with an answer of that one. -/
theorem Eval.run_bind_eq_ok {α β : Type} {x : Eval α} {f : α → Eval β} {env : Env} {s s' : State}
    {b : β} (h : (x >>= f).run env s = (.ok b, s')) :
    ∃ a s₁, x.run env s = (.ok a, s₁) ∧ (f a).run env s₁ = (.ok b, s') := by
  rw [run_bind] at h
  cases hx : x.run env s with
  | mk r s₁ =>
    rw [hx] at h
    cases r with
    | error e => cases h
    | ok a => exact ⟨a, s₁, rfl, h⟩

/-- The parser failed, or it matched nothing and stayed where it was. -/
def Outcome.Stays (c : Cursor) : Outcome → Prop
  | .success _ n => n = c
  | .failure _ => True

namespace Parser

/-! ## Single rounds -/

/-- A round of a repetition: the limits of the active run are looked at, then the parser is
    tried. -/
def round (p : Parser) (c : Cursor) : Eval Outcome := do
  checkpoint c.pos
  p.fn c

section Rounds

variable {env : Env} {p : Parser} {c n : Cursor} {s s₁ s' : State} {v : Value} {f : Failure}
  {e : Fault} {values : List Value}

theorem repeatFrom_eq_round (p : Parser) (c : Cursor) (values : List Value) :
    p.repeatFrom c values = do
      match ← p.round c with
      | .failure f => return ⟨values.reverse, c, some f⟩
      | .success v next =>
        if next.remaining < c.remaining then p.repeatFrom next (v :: values)
        else do
          Eval.emit (.zeroWidth p.name c.pos)
          return ⟨(v :: values).reverse, c, none⟩ := by
  rw [round, Eval.bind_assoc]
  exact repeatFrom_eq p c values

theorem run_repeatFrom_of_error (h : (p.round c).run env s = (.error e, s')) :
    (p.repeatFrom c values).run env s = (.error e, s') := by
  rw [repeatFrom_eq_round, Eval.run_bind_of_error h]

theorem run_repeatFrom_of_failure (h : (p.round c).run env s = (.ok (.failure f), s')) :
    (p.repeatFrom c values).run env s = (.ok ⟨values.reverse, c, some f⟩, s') := by
  rw [repeatFrom_eq_round, Eval.run_bind_of_ok h]
  rfl

theorem run_repeatFrom_of_lt (h : (p.round c).run env s = (.ok (.success v n), s₁))
    (hlt : n.remaining < c.remaining) :
    (p.repeatFrom c values).run env s = (p.repeatFrom n (v :: values)).run env s₁ := by
  rw [repeatFrom_eq_round, Eval.run_bind_of_ok h]
  simp only [if_pos hlt]

theorem run_repeatFrom_of_still (h : (p.round c).run env s = (.ok (.success v c), s')) :
    (p.repeatFrom c values).run env s =
      (.ok ⟨(v :: values).reverse, c, none⟩, s'.emit (.zeroWidth p.name c.pos)) := by
  rw [repeatFrom_eq_round, Eval.run_bind_of_ok h]
  simp only [if_neg (Nat.lt_irrefl c.remaining)]
  rfl

end Rounds

/-! ## Parsers that do not move back -/

/-- From states of the kind the parser does not move back, and neither the parser nor a look
    at the limits leads to a state of another kind. -/
structure MovesOn (kind : State → Prop) (env : Env) (p : Parser) : Prop where
  looks : ∀ {position s u s'}, kind s → (checkpoint position).run env s = (.ok u, s') → kind s'
  keeps : ∀ {c s o s'}, kind s → (p.fn c).run env s = (.ok o, s') → kind s'
  onward : ∀ {c s v n s'}, kind s → (p.fn c).run env s = (.ok (.success v n), s') → c.Onward n

section MovesOn

variable {kind : State → Prop} {env : Env} {p : Parser} {c n : Cursor} {s s' : State} {v : Value}
  {o : Outcome}

theorem MovesOn.round_keeps (hp : p.MovesOn kind env) (hs : kind s)
    (h : (p.round c).run env s = (.ok o, s')) : kind s' := by
  obtain ⟨_, s₁, hlook, hrun⟩ := Eval.run_bind_eq_ok h
  exact hp.keeps (hp.looks hs hlook) hrun

theorem MovesOn.round_onward (hp : p.MovesOn kind env) (hs : kind s)
    (h : (p.round c).run env s = (.ok (.success v n), s')) : c.Onward n := by
  obtain ⟨_, s₁, hlook, hrun⟩ := Eval.run_bind_eq_ok h
  exact hp.onward (hp.looks hs hlook) hrun

end MovesOn

/-! ## The course of a repetition -/

/-- Rounds of a repetition, one after the other, each of which matches and moves on: what they
    matched and where they ended. -/
inductive Rounds (env : Env) (p : Parser) :
    Cursor → State → List (Value × Cursor) → Cursor → State → Prop
  | nil {c : Cursor} {s : State} : Rounds env p c s [] c s
  | cons {c n m : Cursor} {s s₁ s' : State} {v : Value} {steps : List (Value × Cursor)} :
      (p.round c).run env s = (.ok (.success v n), s₁) → c.Onward n → c.pos < n.pos →
      Rounds env p n s₁ steps m s' → Rounds env p c s ((v, n) :: steps) m s'

/-- All rounds of a repetition: those that move on, and the last one, which begins where they
    end and does not move on. -/
structure Course (env : Env) (p : Parser) (c : Cursor) (s : State)
    (steps : List (Value × Cursor)) (n : Cursor) (s₁ : State) (r : Except Fault Outcome)
    (s' : State) : Prop where
  rounds : p.Rounds env c s steps n s₁
  last : (p.round n).run env s₁ = (r, s')
  stays : ∀ o, r = .ok o → o.Stays n

section Courses

variable {kind : State → Prop} {env : Env} {p : Parser} {c n m : Cursor}
  {s s₁ s₂ s' t : State} {steps steps' : List (Value × Cursor)} {r r' : Except Fault Outcome}

/-- A repetition has a course: each round that moves on leaves less to be read. -/
theorem MovesOn.exists_course (hp : p.MovesOn kind env) (hs : kind s) (c : Cursor) :
    ∃ steps n s₁ r s', p.Course env c s steps n s₁ r s' := by
  induction hr : c.remaining using Nat.strongRecOn generalizing c s with
  | ind k ih =>
    subst hr
    cases hround : (p.round c).run env s with
    | mk r s₁ =>
      obtain e | ⟨v, n⟩ | f := r
      · exact ⟨[], c, s, _, s₁, .nil, hround, nofun⟩
      · have hon : c.Onward n := hp.round_onward hs hround
        by_cases hlt : n.remaining < c.remaining
        · have hs₁ : kind s₁ := hp.round_keeps hs hround
          obtain ⟨steps, m, s₂, r, s', hcourse⟩ := ih n.remaining hlt hs₁ n rfl
          have hpos : c.pos < n.pos :=
            Nat.lt_of_le_of_ne hon.pos (hon.remaining_lt_iff.1 hlt).symm
          exact ⟨_, m, s₂, r, s', .cons hround hon hpos hcourse.rounds, hcourse.last,
            hcourse.stays⟩
        · refine ⟨[], c, s, _, s₁, .nil, hround, ?_⟩
          rintro _ ⟨⟩
          exact hon.eq_of_not_lt hlt
      · refine ⟨[], c, s, _, s₁, .nil, hround, ?_⟩
        rintro _ ⟨⟩
        trivial

/-- A round that moves on is not the last one. -/
theorem Course.not_stays {v : Value} (hround : (p.round c).run env s = (.ok (.success v n), s₁))
    (hlt : c.pos < n.pos) (hcourse : p.Course env c s [] m s₂ r s') : False := by
  obtain ⟨⟨⟩, hlast, hstays⟩ := hcourse
  rw [hround] at hlast
  cases hlast
  have heq : n = c := hstays _ rfl
  rw [heq] at hlt
  exact Nat.lt_irrefl _ hlt

/-- There is only one course from a cursor. -/
theorem Course.unique (h : p.Course env c s steps n s₁ r s')
    (h' : p.Course env c s steps' m s₂ r' t) :
    steps' = steps ∧ m = n ∧ s₂ = s₁ ∧ r' = r ∧ t = s' := by
  obtain ⟨hrounds, hlast, hstays⟩ := h
  induction hrounds generalizing steps' with
  | nil =>
    obtain ⟨hrounds', hlast', hstays'⟩ := h'
    cases hrounds' with
    | nil =>
      rw [hlast] at hlast'
      cases hlast'
      exact ⟨rfl, rfl, rfl, rfl, rfl⟩
    | cons hround _ hlt _ => exact (not_stays hround hlt ⟨.nil, hlast, hstays⟩).elim
  | cons hround hon hlt hrounds ih =>
    obtain ⟨hrounds', hlast', hstays'⟩ := h'
    cases hrounds' with
    | nil => exact (not_stays hround hlt ⟨.nil, hlast', hstays'⟩).elim
    | cons hround' _ _ hrounds' =>
      rw [hround] at hround'
      cases hround'
      obtain ⟨rfl, rfl, rfl, rfl, rfl⟩ := ih ⟨hrounds', hlast', hstays'⟩ hlast hstays
      exact ⟨rfl, rfl, rfl, rfl, rfl⟩

/-! ## What the repetition makes of its course -/

theorem Rounds.run_repeatFrom (h : p.Rounds env c s steps n s₁) (values : List Value) :
    (p.repeatFrom c values).run env s =
      (p.repeatFrom n ((steps.map (·.1)).reverse ++ values)).run env s₁ := by
  induction h generalizing values with
  | nil => rfl
  | cons hround hon hlt _ ih =>
    have hless := hon.remaining_lt_iff.2 (Nat.ne_of_gt hlt)
    rw [run_repeatFrom_of_lt hround hless, ih, List.map_cons, List.reverse_cons,
      List.append_assoc, List.singleton_append]

theorem Course.run_repeated_of_error {e : Fault} (h : p.Course env c s steps n s₁ (.error e) s') :
    (p.repeated c).run env s = (.error e, s') := by
  rw [repeated_eq, h.rounds.run_repeatFrom, run_repeatFrom_of_error h.last]

theorem Course.run_repeated_of_failure {f : Failure}
    (h : p.Course env c s steps n s₁ (.ok (.failure f)) s') :
    (p.repeated c).run env s = (.ok ⟨steps.map (·.1), n, some f⟩, s') := by
  rw [repeated_eq, h.rounds.run_repeatFrom, run_repeatFrom_of_failure h.last, List.append_nil,
    List.reverse_reverse]

theorem Course.run_repeated_of_success {w : Value}
    (h : p.Course env c s steps n s₁ (.ok (.success w m)) s') :
    m = n ∧ (p.repeated c).run env s =
      (.ok ⟨steps.map (·.1) ++ [w], n, none⟩, s'.emit (.zeroWidth p.name n.pos)) := by
  have hm : m = n := h.stays _ rfl
  subst hm
  refine ⟨rfl, ?_⟩
  rw [repeated_eq, h.rounds.run_repeatFrom, run_repeatFrom_of_still h.last, List.append_nil,
    List.reverse_cons, List.reverse_reverse]

end Courses

end Parser

/-! ## Counting the tries

A parser that leaves a mark whenever it is tried tells how often a repetition tries it. -/

/-- Whether the event is a mark with the label. -/
def Event.isMark (label : String) : Event → Bool
  | .mark l _ => l == label
  | _ => false

/-- How often the label was marked. -/
def State.marks (label : String) (s : State) : Nat := s.journal.countP (·.isMark label)

theorem State.marks_emit {e : Event} {label : String} (he : e.isMark label = false) (s : State) :
    (s.emit e).marks label = s.marks label :=
  List.countP_cons_of_neg (by simp [he])

theorem marks_checkpoint (position : Int) (label : String) (env : Env) (s : State) :
    ((checkpoint position).run env s).2.marks label = s.marks label := by
  have hlook : (s.emit (.checkpoint position)).marks label = s.marks label :=
    State.marks_emit rfl s
  unfold checkpoint
  rw [Eval.run_bind, Eval.run_ask]
  dsimp only
  cases env.scope with
  | none => rfl
  | some scope =>
    simp only [Eval.run_bind, Eval.run_emit, Eval.run_get]
    split
    · exact hlook
    · cases scope.deadline with
      | none => exact hlook
      | some deadline => exact hlook

namespace Parser

/-- Whenever the parser is tried, it leaves one mark with the label. -/
def Marks (label : String) (env : Env) (p : Parser) : Prop :=
  ∀ c s, ((p.fn c).run env s).2.marks label = s.marks label + 1

theorem mark_marks {label : String} {env : Env} {p : Parser}
    (hp : ∀ c s, ((p.fn c).run env s).2.marks label = s.marks label) :
    (p.mark label).Marks label env := by
  intro c s
  have hmark : (s.emit (.mark label c.pos)).marks label = s.marks label + 1 :=
    List.countP_cons_of_pos (beq_self_eq_true label)
  rw [← hmark]
  exact hp c _

section Tries

variable {env : Env} {p : Parser} {c n : Cursor} {s s₁ s' : State}
  {steps : List (Value × Cursor)} {o : Outcome} {label : String}

/-- A round that is not stopped tries the parser once. -/
theorem Marks.round (hp : p.Marks label env) (h : (p.round c).run env s = (.ok o, s')) :
    s'.marks label = s.marks label + 1 := by
  obtain ⟨_, s₁, hlook, hrun⟩ := Eval.run_bind_eq_ok h
  have hmarks := hp c s₁
  have hlooked := marks_checkpoint c.pos label env s
  rw [hrun] at hmarks
  rw [hlook] at hlooked
  rw [hmarks, hlooked]

theorem Rounds.marks (hp : p.Marks label env) (h : p.Rounds env c s steps n s₁) :
    s₁.marks label = s.marks label + steps.length := by
  induction h with
  | nil => rfl
  | cons hround _ _ _ ih =>
    rw [ih, hp.round hround, List.length_cons, Nat.add_assoc, Nat.add_comm 1]

theorem Course.marks (hp : p.Marks label env) (h : p.Course env c s steps n s₁ (.ok o) s') :
    s'.marks label = s.marks label + (steps.length + 1) := by
  rw [hp.round h.last, h.rounds.marks hp, Nat.add_assoc]

end Tries

/-! ## Repetitions -/

section Repetitions

variable {kind : State → Prop} {env : Env} {p : Parser} {c n m : Cursor} {s s₁ s' : State}
  {t : State} {steps : List (Value × Cursor)} {f : Failure} {r : Repetition}

theorem run_many (h : (p.repeated c).run env s = (.ok r, s')) :
    (p.many.fn c).run env s = (.ok (.success (.list r.values) r.stop), s') := by
  rw [many, Eval.run_bind_of_ok h]
  rfl

theorem run_many1_of_values (h : (p.repeated c).run env s = (.ok r, s')) (hr : r.values ≠ []) :
    (p.many1.fn c).run env s = (.ok (.success (.list r.values) r.stop), s') := by
  obtain ⟨values, stop, ended⟩ := r
  rw [many1, Eval.run_bind_of_ok h]
  cases values with
  | nil => exact absurd rfl hr
  | cons v vs => rfl

theorem run_many1_of_none (h : (p.repeated c).run env s = (.ok ⟨[], n, some f⟩, s')) :
    (p.many1.fn c).run env s = (.ok (.failure (f.insufficient p.name c)), s') := by
  rw [many1, Eval.run_bind_of_ok h]
  rfl

/-- Where the first round matches, the repetition that has to match once is the other one. -/
theorem Course.run_many1_of_success {o : Outcome} {v : Value}
    (h : p.Course env c s steps n s₁ (.ok o) s')
    (hfirst : (p.round c).run env s = (.ok (.success v m), t)) :
    (p.many1.fn c).run env s = (p.many.fn c).run env s := by
  cases o with
  | failure f =>
    have hne : steps.map (·.1) ≠ [] := by
      intro hnil
      rw [List.map_eq_nil_iff] at hnil
      subst hnil
      obtain ⟨⟨⟩, hlast, -⟩ := h
      rw [hfirst] at hlast
      cases hlast
    rw [run_many h.run_repeated_of_failure, run_many1_of_values h.run_repeated_of_failure hne]
  | success w k =>
    obtain ⟨rfl, hrepeated⟩ := h.run_repeated_of_success
    have hne : steps.map (·.1) ++ [w] ≠ [] := List.append_ne_nil_of_right_ne_nil _ nofun
    rw [run_many hrepeated, run_many1_of_values hrepeated hne]

/-- Where the first round fails, it is the only one. -/
theorem run_repeated_of_failure (h : (p.round c).run env s = (.ok (.failure f), s')) :
    (p.repeated c).run env s = (.ok ⟨[], c, some f⟩, s') := by
  rw [repeated_eq, run_repeatFrom_of_failure h]
  rfl

/-- A repetition that is not stopped only ends without values if the last round failed. -/
theorem Course.exists_repetition {o : Outcome} (h : p.Course env c s steps n s₁ (.ok o) s') :
    ∃ r t, (p.repeated c).run env s = (.ok r, t) ∧ (r.values = [] → ∃ f, r.ended = some f) := by
  cases o with
  | failure f => exact ⟨_, _, h.run_repeated_of_failure, fun _ => ⟨f, rfl⟩⟩
  | success w k =>
    obtain ⟨-, hrepeated⟩ := h.run_repeated_of_success
    exact ⟨_, _, hrepeated, fun hnil => absurd hnil (List.append_ne_nil_of_right_ne_nil _ nofun)⟩

/-- The repetition that has to match once fails where the other one has no values. -/
theorem Course.many1_fails_iff {o : Outcome} (h : p.Course env c s steps n s₁ (.ok o) s') :
    (∃ g t, (p.many1.fn c).run env s = (.ok (.failure g), t)) ↔
      ∃ m t, (p.many.fn c).run env s = (.ok (.success (.list []) m), t) := by
  obtain ⟨⟨values, stop, ended⟩, t, hrun, hended⟩ := h.exists_repetition
  cases values with
  | nil =>
    obtain ⟨f, rfl⟩ := hended rfl
    exact iff_of_true ⟨_, t, run_many1_of_none hrun⟩ ⟨stop, t, run_many hrun⟩
  | cons v vs =>
    rw [run_many hrun, run_many1_of_values hrun (List.cons_ne_nil v vs)]
    refine iff_of_false ?_ ?_
    · rintro ⟨_, _, ⟨⟩⟩
    · rintro ⟨_, _, ⟨⟩⟩

/-- A repetition that nothing stops has exactly one course, and it tries the parser once more
    than the course has steps. It answers with the values of the steps, at the cursor that the
    last step led to. If the last round matches nothing, then its value comes after these. The
    repetition that has to match once does the same if the first round matches. If that fails,
    then so does the repetition, and this is exactly where the other one has no values. -/
theorem many_course (hp : p.MovesOn kind env) (hs : kind s) (c : Cursor)
    (hfree : ∀ steps n s₁ e s', ¬ p.Course env c s steps n s₁ (.error e) s') :
    (∃ steps n s₁ o s', p.Course env c s steps n s₁ (.ok o) s' ∧
      (∀ steps' n' s₁' r t, p.Course env c s steps' n' s₁' r t → steps' = steps ∧ n' = n) ∧
      ((∃ f, o = .failure f ∧
          (p.many.fn c).run env s = (.ok (.success (.list (steps.map (·.1))) n), s')) ∨
        ∃ w, o = .success w n ∧
          (p.many.fn c).run env s = (.ok (.success (.list (steps.map (·.1) ++ [w])) n),
            s'.emit (.zeroWidth p.name n.pos))) ∧
      ∀ label, p.Marks label env →
        ((p.many.fn c).run env s).2.marks label = s.marks label + (steps.length + 1)) ∧
    (∀ v m t, (p.round c).run env s = (.ok (.success v m), t) →
      (p.many1.fn c).run env s = (p.many.fn c).run env s) ∧
    (∀ f t, (p.round c).run env s = (.ok (.failure f), t) →
      ∃ g, (p.many1.fn c).run env s = (.ok (.failure g), t) ∧
        g.kind = .insufficientRepetition ∧ g.position = c.pos ∧
        g.message = "Expected at least one " ++ p.name ++ ": " ++ f.message ∧
        g.expected = f.expected ∧ g.index = none ∧ g.causes = [f]) ∧
    ((∃ g t, (p.many1.fn c).run env s = (.ok (.failure g), t)) ↔
      ∃ m t, (p.many.fn c).run env s = (.ok (.success (.list []) m), t)) := by
  obtain ⟨steps, n, s₁, r, s', hcourse⟩ := hp.exists_course hs c
  obtain e | o := r
  · exact absurd hcourse (hfree steps n s₁ e s')
  refine ⟨⟨steps, n, s₁, o, s', hcourse, ?_, ?_⟩, ?_, ?_, hcourse.many1_fails_iff⟩
  · intro steps' n' s₁' r t h
    obtain ⟨hsteps, hn, -⟩ := hcourse.unique h
    exact ⟨hsteps, hn⟩
  · cases o with
    | failure f =>
      have hmany := run_many hcourse.run_repeated_of_failure
      refine ⟨.inl ⟨f, rfl, hmany⟩, fun label hlabel => ?_⟩
      rw [hmany]
      exact hcourse.marks hlabel
    | success w m =>
      obtain ⟨rfl, hrepeated⟩ := hcourse.run_repeated_of_success
      have hmany := run_many hrepeated
      refine ⟨.inr ⟨w, rfl, hmany⟩, fun label hlabel => ?_⟩
      rw [hmany]
      exact (State.marks_emit rfl s').trans (hcourse.marks hlabel)
  · exact fun v m t hfirst => hcourse.run_many1_of_success hfirst
  · intro f t hfirst
    exact ⟨_, run_many1_of_none (run_repeated_of_failure hfirst), rfl, rfl, rfl, rfl, rfl, rfl⟩

end Repetitions

end Parser

/-- The parsers of a grammar do not move back, as long as the rules that were built are what
    their builders hand back. -/
theorem Grammar.parser_movesOn {parts : Parts} (hauthor : ∀ fn, ¬ parts.author fn) {env : Env}
    (hrules : env.rules.Use parts) {g : Grammar} (hg : g.Uses parts) (allowance : Nat) :
    (g.parser env allowance).MovesOn (State.Faithful env.rules) env := by
  have hsound (c : Cursor) (s : State) (hs : s.Faithful env.rules) :=
    Grammar.parser_sound hauthor hrules hg allowance c s env s (Invariant.grown_holds hs parts)
  constructor
  · intro position s u s' hs hrun
    have hI := Invariant.grown_lawful env.rules parts s
    have h := Eval.Ensures.checkpoint hI position env s (Invariant.grown_holds hs parts)
    rw [hrun] at h
    exact h.2.2.faithful
  · intro c s o s' hs hrun
    have h := hsound c s hs
    rw [hrun] at h
    exact h.2.2.faithful
  · intro c s v n s' hs hrun
    have h := hsound c s hs
    rw [hrun] at h
    exact h.1.onward

/-- A letter that may be missing matches twice and then nothing. -/
theorem Parser.many_course_letters :
    let env : Env := { rules := .nested, scope := some { guard := ⟨9, 0⟩ } }
    let p := (Grammar.mark "try" (.optional (.char 'a'))).parser env 9
    let c : Cursor := .start #['a', 'a', 'b']
    let a : Value := .atom (String.singleton 'a')
    ∃ n s', (p.many.fn c).run env {} = (.ok (.success (.list [a, a, .list []]) n), s') ∧
      n.pos = 2 ∧ s'.marks "try" = 3 ∧ (p.many1.fn c).run env {} = (p.many.fn c).run env {} := by
  intro env p c a
  have hrules : env.rules.Use .bare := Rules.nested_use _ fun _ => trivial
  have hp : p.MovesOn (State.Faithful env.rules) env :=
    Grammar.parser_movesOn (fun _ => id) hrules (g := .mark "try" (.optional (.char 'a'))) trivial 9
  have hmarks : p.Marks "try" env := by
    refine Parser.mark_marks fun c s => ?_
    change State.marks "try" (((Parser.char 'a').optional.fn c).run env s).2 = _
    rw [Parser.optional, Eval.run_bind, Parser.char, Parser.ofFn, Eval.run_pure]
    dsimp only
    split <;> rfl
  -- Two letters and then an empty match, which does not move on.
  let n : Cursor := (c.advance 1).advance 1
  obtain ⟨s₁, s', hcourse⟩ : ∃ s₁ s', p.Course env c {} [(a, c.advance 1), (a, n)] n s₁
      (.ok (.success (.list []) n)) s' := by
    refine ⟨_, _, .cons rfl ⟨rfl, ?_⟩ ?_ (.cons rfl ⟨rfl, ?_⟩ ?_ .nil), rfl, ?_⟩
    · decide
    · decide
    · decide
    · decide
    · rintro _ ⟨⟩
      rfl
  have hfree : ∀ steps m s₂ e t, ¬ p.Course env c {} steps m s₂ (.error e) t := by
    intro steps m s₂ e t h
    cases (hcourse.unique h).2.2.2.1
  obtain ⟨⟨steps, m, s₂, o, t, h, -, hanswer, hcount⟩, hmany1, -, -⟩ :=
    Parser.many_course hp (State.faithful_init _) c hfree
  obtain ⟨rfl, rfl, rfl, ho, rfl⟩ := hcourse.unique h
  cases ho
  obtain ⟨_, ⟨⟩, -⟩ | ⟨_, ⟨⟩, hmany⟩ := hanswer
  have htried := hcount "try" hmarks
  rw [hmany] at htried
  exact ⟨n, _, hmany, rfl, htried, hmany1 _ _ _ rfl⟩

end Descent
