-- SUMMARY: A separated list is an item and then a repetition of separators that each have an item after them.
import Descent.Proofs.Rounds

/-! # Separated lists

A list with separators can be written with sequences and a repetition: an item, and then any
number of pairs of a separator and an item. The loop of the separated list and that of the
repetition go through the same rounds, in the same states, with the pair as the parser that
is tried: `separatedFrom_eq_round`. They only differ in what they keep. The separated list
drops the first value of each pair, and it drops a last pair that matched nothing, which the
repetition keeps: `sepBy1_expansion`. -/

namespace Descent

/-- The list of two values. -/
def Value.pair (x : Value × Value) : Value := .list [x.1, x.2]

/-- The second item of a list of two values. -/
def Value.second : Value → Value
  | .list [_, v] => v
  | v => v

namespace Parser

section Pairs

variable {kind : State → Prop} {env : Env} {p q sep : Parser} {c n : Cursor}
  {s s₁ s' : State} {u v : Value} {f : Failure} {e : Fault} {values : List Value}
  {steps : List (Value × Cursor)}

/-! ## Pairs -/

theorem pair_fn (p q : Parser) (c : Cursor) :
    (seq p [q]).fn c = do
      match ← p.fn c with
      | .failure f => return .failure (f.ofElement 0)
      | .success v a => match ← q.fn a with
        | .failure f => return .failure (f.ofElement 1)
        | .success w n => return .success (.pair (v, w)) n := rfl

/-- A pair matches where its first parser does and its second one after that. -/
theorem exists_of_pair (h : ((seq p [q]).fn c).run env s = (.ok (.success u n), s')) :
    ∃ v w a s₁, u = .pair (v, w) ∧ (p.fn c).run env s = (.ok (.success v a), s₁) ∧
      (q.fn a).run env s₁ = (.ok (.success w n), s') := by
  rw [pair_fn] at h
  obtain ⟨o, s₁, hp, h⟩ := Eval.run_bind_eq_ok h
  cases o with
  | failure f => cases h
  | success v a =>
    obtain ⟨o, s₂, hq, h⟩ := Eval.run_bind_eq_ok h
    cases o with
    | failure f => cases h
    | success w m =>
      cases h
      exact ⟨v, w, a, s₁, rfl, hp, hq⟩

theorem MovesOn.pair (hp : p.MovesOn kind env) (hq : q.MovesOn kind env) :
    (seq p [q]).MovesOn kind env where
  looks := hp.looks
  keeps := by
    intro c s o s' hs h
    rw [pair_fn] at h
    obtain ⟨o₁, s₁, hfirst, h⟩ := Eval.run_bind_eq_ok h
    have hs₁ : kind s₁ := hp.keeps hs hfirst
    cases o₁ with
    | failure f =>
      cases h
      exact hs₁
    | success v a =>
      obtain ⟨o₂, s₂, hsecond, h⟩ := Eval.run_bind_eq_ok h
      have hs₂ : kind s₂ := hq.keeps hs₁ hsecond
      cases o₂ with
      | failure f =>
        cases h
        exact hs₂
      | success w n =>
        cases h
        exact hs₂
  onward := by
    intro c s u n s' hs h
    obtain ⟨v, w, a, s₁, -, hfirst, hsecond⟩ := exists_of_pair h
    exact (hp.onward hs hfirst).trans (hq.onward (hp.keeps hs hfirst) hsecond)

/-- The rounds of a repetition of pairs match pairs. -/
theorem Rounds.exists_pairs (h : (seq p [q]).Rounds env c s steps n s₁) :
    ∃ pairs : List (Value × Value), steps.map (·.1) = pairs.map .pair := by
  induction h with
  | nil => exact ⟨[], rfl⟩
  | cons hround _ _ _ ih =>
    obtain ⟨_, _, -, hrun⟩ := Eval.run_bind_eq_ok hround
    obtain ⟨v, w, _, _, rfl, -, -⟩ := exists_of_pair hrun
    obtain ⟨pairs, heq⟩ := ih
    exact ⟨(v, w) :: pairs, congrArg (List.cons _) heq⟩

/-- The second items of pairs are their second components. -/
theorem map_second_of_pairs {pairs : List (Value × Value)}
    (h : steps.map (·.1) = pairs.map .pair) : steps.map (·.1.second) = pairs.map (·.2) :=
  calc steps.map (·.1.second)
      = (steps.map (·.1)).map Value.second := by rw [List.map_map]; rfl
    _ = (pairs.map .pair).map Value.second := by rw [h]
    _ = pairs.map (·.2) := by rw [List.map_map]; rfl

theorem run_pair_of_success {a : Cursor} {w : Value}
    (hp : (p.fn c).run env s = (.ok (.success v a), s₁))
    (hq : (q.fn a).run env s₁ = (.ok (.success w n), s')) :
    ((seq p [q]).fn c).run env s = (.ok (.success (.pair (v, w)) n), s') := by
  rw [pair_fn, Eval.run_bind_of_ok hp, Eval.run_bind_of_ok hq]
  rfl

theorem run_pair_of_error {a : Cursor} (hp : (p.fn c).run env s = (.ok (.success v a), s₁))
    (hq : (q.fn a).run env s₁ = (.error e, s')) :
    ((seq p [q]).fn c).run env s = (.error e, s') := by
  rw [pair_fn, Eval.run_bind_of_ok hp, Eval.run_bind_of_error hq]

/-- A repetition of pairs has pairs as its values, and one more of them where the last round
    matches nothing. -/
theorem Course.run_many_pairs {o : Outcome}
    (h : (seq p [q]).Course env c s steps n s₁ (.ok o) s') :
    ∃ pairs, steps.map (·.1) = List.map Value.pair pairs ∧
      ((∃ f, o = .failure f ∧ ((seq p [q]).many.fn c).run env s =
          (.ok (.success (.list (pairs.map .pair)) n), s')) ∨
        ∃ last, o = .success (.pair last) n ∧ ((seq p [q]).many.fn c).run env s =
          (.ok (.success (.list ((pairs ++ [last]).map .pair)) n),
            s'.emit (.zeroWidth (seq p [q]).name n.pos))) := by
  obtain ⟨pairs, hpairs⟩ := h.rounds.exists_pairs
  refine ⟨pairs, hpairs, ?_⟩
  rw [← hpairs]
  cases o with
  | failure f => exact .inl ⟨f, rfl, run_many h.run_repeated_of_failure⟩
  | success u k =>
    obtain ⟨rfl, hrepeated⟩ := h.run_repeated_of_success
    obtain ⟨_, _, -, hlast⟩ := Eval.run_bind_eq_ok h.last
    obtain ⟨v, w, _, _, rfl, -, -⟩ := exists_of_pair hlast
    refine .inr ⟨(v, w), rfl, ?_⟩
    rw [List.map_append, ← hpairs, List.map_singleton]
    exact run_many hrepeated

/-! ## The rounds of a separated list -/

/-- A round of a separated list is a round of the repetition of a separator and an item. -/
theorem separatedFrom_eq_round (p sep : Parser) (c : Cursor) (values : List Value) :
    p.separatedFrom sep c values = do
      match ← (seq sep [p]).round c with
      | .failure _ => return .success (.list values.reverse) c
      | .success u next =>
        if next.remaining < c.remaining then p.separatedFrom sep next (u.second :: values)
        else return .success (.list values.reverse) c := by
  rw [separatedFrom_eq, round, Eval.bind_assoc, pair_fn]
  congr 1
  funext _
  rw [Eval.bind_assoc]
  congr 1
  funext o
  cases o with
  | failure f => rfl
  | success w a =>
    dsimp only
    rw [Eval.bind_assoc]
    congr 1
    funext o
    cases o with
    | failure f => rfl
    | success v n => rfl

theorem run_separatedFrom_of_error (h : ((seq sep [p]).round c).run env s = (.error e, s')) :
    (p.separatedFrom sep c values).run env s = (.error e, s') := by
  rw [separatedFrom_eq_round, Eval.run_bind_of_error h]

theorem run_separatedFrom_of_failure
    (h : ((seq sep [p]).round c).run env s = (.ok (.failure f), s')) :
    (p.separatedFrom sep c values).run env s = (.ok (.success (.list values.reverse) c), s') := by
  rw [separatedFrom_eq_round, Eval.run_bind_of_ok h]
  rfl

theorem run_separatedFrom_of_lt
    (h : ((seq sep [p]).round c).run env s = (.ok (.success u n), s₁))
    (hlt : n.remaining < c.remaining) :
    (p.separatedFrom sep c values).run env s =
      (p.separatedFrom sep n (u.second :: values)).run env s₁ := by
  rw [separatedFrom_eq_round, Eval.run_bind_of_ok h]
  simp only [if_pos hlt]

theorem run_separatedFrom_of_still
    (h : ((seq sep [p]).round c).run env s = (.ok (.success u c), s')) :
    (p.separatedFrom sep c values).run env s = (.ok (.success (.list values.reverse) c), s') := by
  rw [separatedFrom_eq_round, Eval.run_bind_of_ok h]
  simp only [if_neg (Nat.lt_irrefl c.remaining)]
  rfl

theorem Rounds.run_separatedFrom (h : (seq sep [p]).Rounds env c s steps n s₁)
    (values : List Value) :
    (p.separatedFrom sep c values).run env s =
      (p.separatedFrom sep n ((steps.map (·.1.second)).reverse ++ values)).run env s₁ := by
  induction h generalizing values with
  | nil => rfl
  | cons hround hon hlt _ ih =>
    have hless := hon.remaining_lt_iff.2 (Nat.ne_of_gt hlt)
    rw [run_separatedFrom_of_lt hround hless, ih, List.map_cons, List.reverse_cons,
      List.append_assoc, List.singleton_append]

/-- The separated list ends with the items of the rounds that move on, whatever the last
    round answers. -/
theorem Course.run_separated {o : Outcome}
    (h : (seq sep [p]).Course env c s steps n s₁ (.ok o) s') (first : Value) :
    (p.separated sep first c).run env s =
      (.ok (.success (.list (first :: steps.map (·.1.second))) n), s') := by
  change (p.separatedFrom sep c [first]).run env s = _
  rw [h.rounds.run_separatedFrom]
  have hreverse : ((steps.map (·.1.second)).reverse ++ [first]).reverse =
      first :: steps.map (·.1.second) := by
    rw [List.reverse_append, List.reverse_reverse, List.reverse_singleton, List.singleton_append]
  cases o with
  | failure f => rw [run_separatedFrom_of_failure h.last, hreverse]
  | success u m =>
    have hm : m = n := h.stays _ rfl
    subst hm
    rw [run_separatedFrom_of_still h.last, hreverse]

theorem Course.run_separated_of_error
    (h : (seq sep [p]).Course env c s steps n s₁ (.error e) s') (first : Value) :
    (p.separated sep first c).run env s = (.error e, s') := by
  change (p.separatedFrom sep c [first]).run env s = _
  rw [h.rounds.run_separatedFrom, run_separatedFrom_of_error h.last]

/-! ## The two forms of the list -/

theorem run_sepBy1_of_success (h : (p.fn c).run env s = (.ok (.success v n), s₁)) :
    ((p.sepBy1 sep).fn c).run env s = (p.separated sep v n).run env s₁ := by
  rw [sepBy1, Eval.run_bind_of_ok h]

theorem run_sepBy_of_failure (h : (p.fn c).run env s = (.ok (.failure f), s')) :
    ((p.sepBy sep).fn c).run env s = (.ok (.success (.list []) c), s') := by
  rw [sepBy, Eval.run_bind_of_ok h]
  rfl

/-- Unless the first item fails, the list that may be empty is not. -/
theorem run_sepBy_eq (h : ∀ f, ((p.fn c).run env s).1 ≠ .ok (.failure f)) :
    ((p.sepBy sep).fn c).run env s = ((p.sepBy1 sep).fn c).run env s := by
  rw [sepBy, sepBy1, Eval.run_bind, Eval.run_bind]
  cases hfirst : (p.fn c).run env s with
  | mk r s₁ =>
    obtain e | ⟨v, n⟩ | f := r
    · rfl
    · rfl
    · rw [hfirst] at h
      exact absurd rfl (h f)

end Pairs

section Expansion

variable {kind : State → Prop} {env : Env} {p sep : Parser} {s : State}

/-- A separated list and its expansion are stopped by the same fault, or fail because their
    first item does, or match up to the same cursor. The list then has the first value and
    the second values of the pairs that the expansion has, but not of a last pair that
    matched nothing. The list that may be empty is the same where its first item matches, and
    empty where that fails. -/
theorem sepBy1_expansion (hp : p.MovesOn kind env) (hsep : sep.MovesOn kind env) (hs : kind s)
    (c : Cursor) :
    let listed := ((p.sepBy1 sep).fn c).run env s
    let expanded := ((seq p [(seq sep [p]).many]).fn c).run env s
    ((∃ e s', listed = (.error e, s') ∧ expanded = (.error e, s')) ∨
      (∃ f g s', (p.fn c).run env s = (.ok (.failure f), s') ∧ listed = (.ok (.failure f), s') ∧
        expanded = (.ok (.failure g), s') ∧ g.kind = .sequenceElementFailed ∧
        g.index = some 0 ∧ g.causes = [f]) ∨
      ∃ first m s₁ steps n s₂ o s' pairs, (p.fn c).run env s = (.ok (.success first m), s₁) ∧
        (seq sep [p]).Course env m s₁ steps n s₂ (.ok o) s' ∧
        steps.map (·.1) = List.map Value.pair pairs ∧
        listed = (.ok (.success (.list (first :: pairs.map (·.2))) n), s') ∧
        ((∃ f, o = .failure f ∧
            expanded = (.ok (.success (.pair (first, .list (pairs.map .pair))) n), s')) ∨
          ∃ last, o = .success (.pair last) n ∧
            expanded = (.ok (.success (.pair (first, .list ((pairs ++ [last]).map .pair))) n),
              s'.emit (.zeroWidth (seq sep [p]).name n.pos)))) ∧
    ((∀ f s', (p.fn c).run env s = (.ok (.failure f), s') →
        ((p.sepBy sep).fn c).run env s = (.ok (.success (.list []) c), s')) ∧
      ((∀ f, ((p.fn c).run env s).1 ≠ .ok (.failure f)) →
        ((p.sepBy sep).fn c).run env s = listed)) := by
  intro listed expanded
  refine ⟨?_, fun f s' hfirst => run_sepBy_of_failure hfirst, run_sepBy_eq⟩
  cases hfirst : (p.fn c).run env s with
  | mk r s₁ =>
    obtain e | ⟨first, m⟩ | f := r
    · refine .inl ⟨e, s₁, ?_, ?_⟩
      · exact Eval.run_bind_of_error hfirst
      · exact Eval.run_bind_of_error hfirst
    · have hs₁ : kind s₁ := hp.keeps hs hfirst
      obtain ⟨steps, n, s₂, r, s', hcourse⟩ := (hsep.pair hp).exists_course hs₁ m
      have hlisted : listed = (p.separated sep first m).run env s₁ := run_sepBy1_of_success hfirst
      obtain e | o := r
      · have hmany : ((seq sep [p]).many.fn m).run env s₁ = (.error e, s') :=
          Eval.run_bind_of_error hcourse.run_repeated_of_error
        refine .inl ⟨e, s', ?_, run_pair_of_error hfirst hmany⟩
        rw [hlisted, hcourse.run_separated_of_error]
      · obtain ⟨pairs, hpairs, hmany⟩ := hcourse.run_many_pairs
        refine .inr (.inr ⟨first, m, s₁, steps, n, s₂, o, s', pairs, rfl, hcourse, hpairs, ?_, ?_⟩)
        · rw [hlisted, hcourse.run_separated, map_second_of_pairs hpairs]
        · obtain ⟨f, rfl, hmany⟩ | ⟨last, rfl, hmany⟩ := hmany
          · exact .inl ⟨f, rfl, run_pair_of_success hfirst hmany⟩
          · exact .inr ⟨last, rfl, run_pair_of_success hfirst hmany⟩
    · exact .inr (.inl ⟨f, f.ofElement 0, s₁, rfl, Eval.run_bind_of_ok hfirst,
        Eval.run_bind_of_ok hfirst, rfl, rfl, rfl⟩)

end Expansion

/-- Items and separators that may all be missing: after two items neither of them consumes
    anything, and the list has no third item, as the expansion does. -/
theorem sepBy1_expansion_missing :
    let env : Env := { rules := .nested, scope := some { guard := ⟨9, 0⟩ } }
    let p := (Grammar.optional (.char 'a')).parser env 9
    let sep := (Grammar.optional (.char ',')).parser env 9
    let c : Cursor := .start #['a', ',', 'a', 'b']
    let a : Value := .atom (String.singleton 'a')
    let comma : Value := .atom (String.singleton ',')
    let missing : Value := .list []
    ∃ n s' t, n.pos = 3 ∧
      ((p.sepBy1 sep).fn c).run env {} = (.ok (.success (.list [a, a]) n), s') ∧
      ((p.sepBy sep).fn c).run env {} = ((p.sepBy1 sep).fn c).run env {} ∧
      ((seq p [(seq sep [p]).many]).fn c).run env {} =
        (.ok (.success (.pair (a, .list [.pair (comma, a), .pair (missing, missing)])) n), t) := by
  intro env p sep c a comma missing
  have hrules : env.rules.Use .bare := Rules.nested_use _ fun _ => trivial
  have hp : p.MovesOn (State.Faithful env.rules) env :=
    Grammar.parser_movesOn (fun _ => id) hrules (g := .optional (.char 'a')) trivial 9
  have hsep : sep.MovesOn (State.Faithful env.rules) env :=
    Grammar.parser_movesOn (fun _ => id) hrules (g := .optional (.char ',')) trivial 9
  let m : Cursor := c.advance 1
  let n : Cursor := (m.advance 1).advance 1
  obtain ⟨s₁, s', hcourse⟩ : ∃ s₁ s', (seq sep [p]).Course env m {} [(.pair (comma, a), n)] n s₁
      (.ok (.success (.pair (missing, missing)) n)) s' := by
    refine ⟨_, _, .cons rfl ⟨rfl, ?_⟩ ?_ .nil, rfl, ?_⟩
    · decide
    · decide
    · rintro _ ⟨⟩
      rfl
  have hlisted : ((p.sepBy1 sep).fn c).run env {} = (.ok (.success (.list [a, a]) n), s') :=
    (run_sepBy1_of_success rfl).trans (hcourse.run_separated a)
  obtain ⟨h, -, hsame⟩ := sepBy1_expansion hp hsep (State.faithful_init _) c
  obtain ⟨_, _, h, -⟩ | ⟨_, _, _, h, -⟩ | ⟨_, _, _, _, _, _, _, _, pairs, hfirst, h, hpairs, -, hend⟩ := h
  · rw [hlisted] at h
    cases h
  · cases h
  · cases hfirst
    obtain ⟨rfl, rfl, rfl, ho, rfl⟩ := hcourse.unique h
    obtain ⟨f, rfl, -⟩ | ⟨last, rfl, hexpanded⟩ := hend
    · cases ho
    · have hlast : Value.pair last = .pair (missing, missing) := by
        injection ho with ho
        injection ho
      have hvalues : (pairs ++ [last]).map Value.pair =
          [.pair (comma, a), .pair (missing, missing)] := by
        rw [List.map_append, ← hpairs, ← hlast]
        rfl
      rw [hvalues] at hexpanded
      refine ⟨n, _, _, rfl, hlisted, hsame ?_, hexpanded⟩
      rintro _ ⟨⟩

end Parser

end Descent
