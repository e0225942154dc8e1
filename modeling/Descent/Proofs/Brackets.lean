-- SUMMARY: Brackets, blanks and tokens do what sequences and repetitions do of which some values are dropped.
import Descent.Proofs.Literals
import Descent.Proofs.Rounds

/-! # Brackets, blanks and tokens

A parser in brackets and a token can be written as sequences, and blanks as a repetition of
single characters. The short forms go through the same parsers in the same states, so that they
match and fail together with the long ones. They keep less: of the values only one, of the
blanks only the text, and of a failure only its cause. The sequence names the element that
failed, and its failure has this cause alone: `Breaks.run_seqFrom_eq`. -/

namespace Descent

namespace Parser

/-- A parser that keeps the value of one element against the sequence of all of them. The same
    fault stops both, or both fail and the one fails with the cause of the other, or both match
    up to the same cursor. They leave the same state. -/
def Abridges (i : Nat) (short long : Except Fault Outcome × State) : Prop :=
  (∃ e s, short = (.error e, s) ∧ long = (.error e, s)) ∨
    (∃ f g s, short = (.ok (.failure f), s) ∧ long = (.ok (.failure g), s) ∧
      g.kind = .sequenceElementFailed ∧ g.causes = [f]) ∨
    ∃ v vs n s, short = (.ok (.success v n), s) ∧ long = (.ok (.success (.list vs) n), s) ∧
      vs[i]? = some v

section Brackets

variable {env : Env} {o p q : Parser} {ps : List Parser} {c n : Cursor} {s s' : State}
  {v : Value} {vs : List Value} {r : Except Fault Failure} {i : Nat}
  {short : Except Fault Outcome × State}

theorem AllMatch.abridges (h : AllMatch env ps c s vs n s')
    (hshort : short = (.ok (.success v n), s')) (hv : vs[i]? = some v) :
    Abridges i short ((seqFrom 0 [] ps c).run env s) :=
  .inr (.inr ⟨v, vs, n, s', hshort, h.run_seqFrom 0 [], hv⟩)

/-- What stops the elements stops the sequence of them, which names the element. -/
theorem Breaks.abridges (h : Breaks env ps c s r s') (hshort : short = (r.map .failure, s')) :
    Abridges i short ((seqFrom 0 [] ps c).run env s) := by
  obtain ⟨k, hlong⟩ := h.run_seqFrom_eq 0 []
  cases r with
  | error e => exact .inl ⟨e, s', hshort, hlong⟩
  | ok f => exact .inr (.inl ⟨f, f.ofElement k, s', hshort, hlong, rfl, rfl⟩)

/-! ## Brackets -/

/-- What a parser that does not match makes of anything that is to follow it. -/
theorem run_pass {next : Value → Cursor → Eval Outcome}
    (h : (p.fn c).run env s = (r.map .failure, s')) :
    (do match ← p.fn c with
      | .failure f => return .failure f
      | .success v n => next v n : Eval Outcome).run env s = (r.map .failure, s') := by
  cases r with
  | error e => exact Eval.run_bind_of_error h
  | ok f => exact Eval.run_bind_of_ok h

theorem AllMatch.run_between (h : AllMatch env [o, p, q] c s vs n s') :
    ∃ u v w, vs = [u, v, w] ∧
      ((between o p q).fn c).run env s = (.ok (.success v n), s') := by
  obtain _ | ⟨ho, _ | ⟨hp, _ | ⟨hq, ⟨⟩⟩⟩⟩ := h
  refine ⟨_, _, _, rfl, ?_⟩
  exact (Eval.run_bind_of_ok ho).trans
    ((Eval.run_bind_of_ok hp).trans (Eval.run_bind_of_ok hq))

theorem Breaks.run_between (h : Breaks env [o, p, q] c s r s') :
    ((between o p q).fn c).run env s = (r.map .failure, s') := by
  cases h with
  | here ho => exact run_pass ho
  | later ho h =>
    rw [between, Eval.run_bind_of_ok ho]
    cases h with
    | here hp => exact run_pass hp
    | later hp h =>
      rw [Eval.run_bind_of_ok hp]
      cases h with
      | here hq => exact run_pass hq
      | later _ h => cases h

theorem between_abridges (o p q : Parser) (env : Env) (c : Cursor) (s : State) :
    Abridges 1 (((between o p q).fn c).run env s) (((seq o [p, q]).fn c).run env s) := by
  obtain ⟨vs, n, s', hall⟩ | ⟨r, s', hbreaks⟩ := allMatch_or_breaks env [o, p, q] c s
  · obtain ⟨u, v, w, rfl, hshort⟩ := hall.run_between
    exact hall.abridges hshort rfl
  · exact hbreaks.abridges hbreaks.run_between

/-! ## Blanks -/

theorem isBlank_eq_contains (ch : Char) : isBlank ch = " \t\n\r".toList.contains ch := by
  have hlist : " \t\n\r".toList = [' ', '\t', '\n', '\r'] := rfl
  rw [hlist]
  simp [isBlank, Bool.or_assoc]

theorem run_spaces (env : Env) (c : Cursor) (s : State) :
    (spaces.fn c).run env s =
      (.ok (.success (.atom (.ofList (c.rest.takeWhile isBlank)))
        (c.advance (c.rest.takeWhile isBlank).length)), s) := by
  have htext : c.textUpTo (c.advance (c.rest.takeWhile isBlank).length).pos =
      .ofList (c.rest.takeWhile isBlank) := by
    rw [Cursor.textUpTo_advance, Cursor.textAhead_eq,
      ← List.prefix_iff_eq_take.1 (List.takeWhile_prefix isBlank)]
  simp only [spaces, ofFn, Eval.run_pure, skipBlanks_eq, htext]

/-- Without an active scope there are no limits to look at. -/
theorem run_round_of_none (h : env.scope = none) (p : Parser) (c : Cursor) (s : State) :
    (p.round c).run env s = (p.fn c).run env s := by
  have hlook : (checkpoint c.pos).run env s = (.ok (), s) := by
    simp only [checkpoint, Eval.run_bind, Eval.run_ask, h, Eval.run_pure]
  rw [round, Eval.run_bind_of_ok hlook]

/-- Characters that pass the test are matched one in each round. -/
theorem rounds_satisfy (h : env.scope = none) (description : String) {test : Char → Bool}
    {t after : List Char} (ht : ∀ ch ∈ t, test ch = true) (hrest : c.rest = t ++ after)
    (s : State) :
    ∃ steps, (satisfy description (.ofTest test)).Rounds env c s steps (c.advance t.length) s ∧
      steps.map (·.1) = t.map .letter := by
  induction t generalizing c with
  | nil =>
    have hstay : c.advance ([] : List Char).length = c := c.advance_zero
    rw [hstay]
    exact ⟨[], .nil, rfl⟩
  | cons ch t ih =>
    obtain ⟨hch, ht⟩ := List.forall_mem_cons.1 ht
    have hhead : c.head? = some ch := Cursor.head?_of_rest hrest
    obtain ⟨steps, hrounds, hvalues⟩ := ih ht (Cursor.rest_advance_one hrest)
    have hround : ((satisfy description (.ofTest test)).round c).run env s =
        (.ok (.success (.letter ch) (c.advance 1)), s) := by
      rw [run_round_of_none h]
      simp only [satisfy, hhead, apply_ofTest, hch, Eval.pure_bind, if_true, Eval.run_pure,
        Value.letter]
    have hlt : c.pos < (c.advance 1).pos := by
      rw [Cursor.advance_one_pos hhead]
      exact Nat.lt_succ_self _
    refine ⟨(.letter ch, c.advance 1) :: steps, ?_, ?_⟩
    · rw [← c.advance_cons_length ch t]
      exact .cons hround (c.onward_advance 1) hlt hrounds
    · rw [List.map_cons, hvalues, List.map_cons]

theorem stops_dropWhile (test : Char → Bool) (cs : List Char) :
    Stops test (cs.dropWhile test) := by
  intro ch hch
  have hhead := List.head?_dropWhile_not test cs
  rw [hch] at hhead
  exact hhead

/-- Without an active scope a repetition of single characters takes all up to the first that
    does not pass the test. -/
theorem run_many_satisfy (h : env.scope = none) (description : String) {test : Char → Bool}
    {t after : List Char} (ht : ∀ ch ∈ t, test ch = true) (hafter : Stops test after)
    (hrest : c.rest = t ++ after) (s : State) :
    ((satisfy description (.ofTest test)).many.fn c).run env s =
      (.ok (.success (.list (t.map .letter)) (c.advance t.length)), s) := by
  obtain ⟨steps, hrounds, hvalues⟩ := rounds_satisfy h description ht hrest s
  have hend : (c.advance t.length).rest = after := by
    rw [Cursor.rest_advance, hrest, Int.toNat_natCast, List.drop_left]
  -- The last round fails, and it leaves the state as it is.
  have hlast := rejects_satisfy (K := fun env' s' => env' = env ∧ s' = s) description hafter _ hend
  obtain ⟨_, _, hrun, ⟨f, rfl, -⟩, -, hs⟩ := hlast env s ⟨rfl, rfl⟩
  rw [hs, ← run_round_of_none h] at hrun
  have hcourse : (satisfy description (.ofTest test)).Course env c s steps
      (c.advance t.length) s (.ok (.failure f)) s := by
    refine ⟨hrounds, hrun, ?_⟩
    rintro _ ⟨⟩
    trivial
  rw [run_many hcourse.run_repeated_of_failure, hvalues]

/-- Blanks are the longest text of blanks ahead. Without an active scope a repetition of the
    four characters takes the same text. -/
theorem spaces_expansion (env : Env) (c : Cursor) (s : State) :
    ∃ t n, (spaces.fn c).run env s = (.ok (.success (.atom t) n), s) ∧
      n.source = c.source ∧ n.pos = c.pos + t.length ∧ t.toList <+: c.rest ∧
      (∀ ch ∈ t.toList, ch ∈ " \t\n\r".toList) ∧
      (∀ cs, cs <+: c.rest → (∀ ch ∈ cs, ch ∈ " \t\n\r".toList) → cs <+: t.toList) ∧
      (env.scope = none → ∃ vs,
        ((Grammar.many (.charIn " \t\n\r")).call c).run env s = (.ok (.success (.list vs) n), s) ∧
          (Value.list vs).text = t) := by
  have hmem (ch : Char) : ch ∈ " \t\n\r".toList ↔ isBlank ch = true := by
    rw [isBlank_eq_contains, List.contains_iff_mem]
  have hall : ∀ ch ∈ c.rest.takeWhile isBlank, isBlank ch = true :=
    List.all_eq_true.1 List.all_takeWhile
  simp only [hmem]
  refine ⟨_, _, run_spaces env c s, rfl, ?_, ?_, ?_, ?_, fun h => ?_⟩
  · rw [← skipBlanks_eq, Cursor.skipBlanks_pos, String.length_ofList]
  · rw [String.toList_ofList]
    exact List.takeWhile_prefix _
  · rw [String.toList_ofList]
    exact hall
  · rintro cs ⟨after, hrest⟩ hcs
    rw [String.toList_ofList, ← hrest, List.takeWhile_append_of_pos hcs]
    exact List.prefix_append _ _
  · have htest : isBlank = " \t\n\r".toList.contains := funext isBlank_eq_contains
    refine ⟨(c.rest.takeWhile isBlank).map .letter, ?_, ?_⟩
    · rw [htest] at hall ⊢
      exact run_many_satisfy h _ hall (stops_dropWhile _ _) List.takeWhile_append_dropWhile.symm s
    · rw [← String.toList_inj, Value.toList_text_letters, String.toList_ofList]

/-! ## Tokens -/

/-- The blanks after the parser cannot fail. -/
theorem run_token (p : Parser) (env : Env) (c : Cursor) (s : State) :
    (∃ (r : Except Fault Failure) (s' : State), (p.fn c).run env s = (r.map .failure, s') ∧
        (p.token.fn c).run env s = (r.map .failure, s')) ∨
      ∃ v n s', (p.fn c).run env s = (.ok (.success v n), s') ∧
        (p.token.fn c).run env s = (.ok (.success v (skipBlanks n)), s') := by
  cases hp : (p.fn c).run env s with
  | mk r s' =>
    obtain e | ⟨v, n⟩ | f := r
    · exact .inl ⟨.error e, s', rfl, run_pass hp⟩
    · exact .inr ⟨v, n, s', rfl, Eval.run_bind_of_ok hp⟩
    · exact .inl ⟨.ok f, s', rfl, run_pass hp⟩

theorem run_token_failure_iff {f : Failure} :
    (p.token.fn c).run env s = (.ok (.failure f), s') ↔
      (p.fn c).run env s = (.ok (.failure f), s') := by
  obtain ⟨r, s₁, hp, htoken⟩ | ⟨v, n, s₁, hp, htoken⟩ := run_token p env c s
  · rw [hp, htoken]
  · rw [hp, htoken]
    exact iff_of_false nofun nofun

theorem token_abridges (p : Parser) (env : Env) (c : Cursor) (s : State) :
    Abridges 0 ((p.token.fn c).run env s) (((seq p [spaces]).fn c).run env s) := by
  obtain ⟨r, s', hp, hshort⟩ | ⟨v, n, s', hp, hshort⟩ := run_token p env c s
  · exact Breaks.abridges (.here hp) hshort
  · rw [skipBlanks_eq] at hshort
    have hall : AllMatch env [p, spaces] c s _ _ s' :=
      .cons hp (.cons (run_spaces env n s') .nil)
    exact hall.abridges hshort rfl

/-- Brackets and tokens do what sequences do of which one value is kept, and a token fails as
    its parser does. Blanks are the longest text of blanks ahead, possibly an empty one, and
    without an active scope a repetition of the four characters has the same text. -/
theorem delimited_expansion (o p q : Parser) (env : Env) (c : Cursor) (s : State) :
    Abridges 1 (((between o p q).fn c).run env s) (((seq o [p, q]).fn c).run env s) ∧
    Abridges 0 ((p.token.fn c).run env s) (((seq p [spaces]).fn c).run env s) ∧
    (∀ f s', (p.token.fn c).run env s = (.ok (.failure f), s') ↔
      (p.fn c).run env s = (.ok (.failure f), s')) ∧
    ∃ t n, (spaces.fn c).run env s = (.ok (.success (.atom t) n), s) ∧
      n.source = c.source ∧ n.pos = c.pos + t.length ∧ t.toList <+: c.rest ∧
      (∀ ch ∈ t.toList, ch ∈ " \t\n\r".toList) ∧
      (∀ cs, cs <+: c.rest → (∀ ch ∈ cs, ch ∈ " \t\n\r".toList) → cs <+: t.toList) ∧
      (env.scope = none → ∃ vs,
        ((Grammar.many (.charIn " \t\n\r")).call c).run env s = (.ok (.success (.list vs) n), s) ∧
          (Value.list vs).text = t) :=
  ⟨between_abridges o p q env c s, token_abridges p env c s, fun _ _ => run_token_failure_iff,
    spaces_expansion env c s⟩

end Brackets

/-- Without a scope the repetition takes the two blanks as well. Brackets of single characters
    fail where the closing one should be, as the last element of the sequence does. -/
theorem delimited_expansion_blanks :
    let env : Env := { rules := .nested }
    let c : Cursor := .start #[' ', '\n', 'a']
    let bracketed := ((between (char ' ') (char '\n') (char ')')).fn c).run env {}
    let expanded := ((seq (char ' ') [char '\n', char ')']).fn c).run env {}
    (∃ f g, bracketed = (.ok (.failure f), {}) ∧ expanded = (.ok (.failure g), {}) ∧
        g.causes = [f] ∧ f.position = 2) ∧
      ∃ n vs, (spaces.fn c).run env {} = (.ok (.success (.atom " \n") n), {}) ∧
        ((Grammar.many (.charIn " \t\n\r")).call c).run env {} =
          (.ok (.success (.list vs) n), {}) ∧ n.pos = 2 := by
  intro env c bracketed expanded
  obtain ⟨hbetween, -, -, t, n, hspaces, -, -, -, -, -, hmany⟩ :=
    delimited_expansion (char ' ') (char '\n') (char ')') env c {}
  constructor
  · obtain ⟨e, s', h, -⟩ | ⟨f, g, s', hshort, hlong, -, hcauses⟩ | ⟨v, vs, n, s', h, -⟩ := hbetween
    · cases h
    · cases hshort
      exact ⟨_, g, rfl, hlong, hcauses, rfl⟩
    · cases h
  · obtain ⟨vs, hrepeated, -⟩ := hmany rfl
    have hblanks : (spaces.fn c).run env {} =
        (.ok (.success (.atom " \n") (c.advance 2)), {}) := run_spaces env c {}
    rw [hblanks] at hspaces
    cases hspaces
    exact ⟨c.advance 2, vs, hblanks, hrepeated, rfl⟩

end Parser

end Descent
