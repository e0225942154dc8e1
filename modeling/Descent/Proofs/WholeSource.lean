-- SUMMARY: A run over a whole source is a run of the parser and then the end of the input.
import Descent.Proofs.Discipline
import Descent.Proofs.Lockstep

/-! # Whole sources

A run that does not allow input to be left over adds a failure of its own to those of its
parser. The same failure comes about when the parser is followed by the end of the input
in a sequence and input may be left over: `Parser.run_whole_iff_eof`.

While the parser works, the two runs differ in nothing but the name that the journal has
for them, so all that is asked of the parser is that it does not look there. No parser of
a grammar does: `Grammar.parser_discreet`. -/

namespace Descent

/-! ## Discreet parsers -/

/-- What the parser answers does not depend on the journal. -/
def Parser.Discreet (p : Parser) : Prop :=
  ∀ c env s (j : Journal), ((p.fn c).run env { s with journal := j }).1 = ((p.fn c).run env s).1

/-- Two computations that end in the same way give the same answer. -/
theorem Comparison.Ends.fst_eq {α : Type} {x y : Except Fault α × State}
    (h : (inside {}).Ends (fun a b => b = a) x y) : y.1 = x.1 := by
  obtain ⟨r, s⟩ := x
  cases r with
  | ok a =>
    obtain ⟨_, t, rfl, rfl, -⟩ := h
    rfl
  | error f =>
    obtain ⟨_, t, rfl, rfl, -⟩ := h.resolve_left id
    rfl

/-- The parser of a grammar is discreet, whatever functions its author wrote. -/
theorem Grammar.parser_discreet (g : Grammar) (env : Env) (allowance : Nat) :
    (g.parser env allowance).Discreet := by
  intro c env' s j
  have hk := Comparison.inside_lawful {}
  have hparts := Comparison.inside_allows {}
  have hrun := Comparison.runNested_sim {} env.rules stackLimit
  have hlinks : (Comparison.inside {}).Linked _ _ :=
    Comparison.links_sim hk hparts (fun _ _ h => h.symm) hrun (fun _ _ => rfl) env.rules allowance
  have hsim := (Comparison.denote_sim hk hparts hlinks g g.uses_all).here rfl c
  exact (hsim env' env' s { s with journal := j } ⟨rfl, rfl, rfl, env'.rules.use_all⟩
    ⟨rfl, rfl, rfl, rfl, fun _ q _ _ => q.uses_all⟩).fst_eq

namespace Parser

/-! ## The answer of the parser of a run -/

/-- The scope in which a run tries its parser, unless something stops the run before. -/
def opening (o : RunOptions) (source : Source) : Eval Scope :=
  if o.rejects source.size then Eval.raise (.sourceTooLarge source.size o.maxSize)
  else openScope o.maxDepth o.timeout o.watched

/-- What the parser itself answers in its run. -/
def answer (p : Parser) (o : RunOptions) (source : Source) (env : Env) (s : State) :
    Except Fault Outcome :=
  match (opening o source).run env s with
  | (.ok scope, s₁) => ((p.fn (.start source)).run { env with scope := some scope } s₁).1
  | (.error f, _) => .error f

/-- A run answers as its parser does, unless input is left over. -/
theorem Discreet.fst_run {p : Parser} (hp : p.Discreet) (o : RunOptions) (source : Source)
    (env : Env) (s : State) :
    ((p.run o source).run env s).1 = (p.answer o source env s).map (Outcome.whole o) := by
  have hconclude : ∀ (x : Outcome) t, ((p.conclude x).run env t).1 = .ok x := by
    intro x t
    cases x <;> rfl
  rw [run_eq, answer, opening]
  split
  · rfl
  · rw [Eval.run_bind]
    cases (openScope o.maxDepth o.timeout o.watched).run env s with
    | mk r s₁ =>
      cases r with
      | error f => rfl
      | ok scope =>
        let inner : Env := { env with scope := some scope }
        let running : Event := .running p.name source.size
        have hp₁ : ((p.fn (.start source)).run inner (s₁.emit running)).1 =
            ((p.fn (.start source)).run inner s₁).1 := hp _ _ _ _
        simp only [Eval.run_bind, Eval.run_emit, Eval.run_closing, Eval.run_within]
        rw [← hp₁]
        cases (p.fn (.start source)).run inner (s₁.emit running) with
        | mk r s₂ =>
          cases r with
          | error f => rfl
          | ok x => exact hconclude _ _

/-! ## The end of the input -/

/-- The failure of input that is left over. -/
def leftOver (n : Cursor) (found : Char) : Failure :=
  .ofDiagnostic .expectedEndOfInput n.pos (.expectedEndOfInput (String.singleton found))

theorem trailing_eq (n : Cursor) (found : Char) :
    trailing n found = .failure (leftOver n found) := rfl

/-- What becomes of an outcome when the end of the input follows in a sequence. -/
def thenEnd : Outcome → Outcome
  | .failure f => .failure (f.ofElement 0)
  | .success v n => match n.head? with
    | some found => .failure ((leftOver n found).ofElement 1)
    | none => .success (.list [v, .atom ""]) n

theorem fst_seq_eof (p : Parser) (c : Cursor) (env : Env) (s : State) :
    (((seq p [eof]).fn c).run env s).1 = ((p.fn c).run env s).1.map thenEnd := by
  simp only [seq, seqFrom, Eval.run_bind]
  cases (p.fn c).run env s with
  | mk r s₁ =>
    obtain e | ⟨v, n⟩ | f := r
    · rfl
    · dsimp only [eof, ofFn]
      cases h : n.head? with
      | none =>
        simp only [Except.map, thenEnd, h]
        rfl
      | some found =>
        simp only [Except.map, thenEnd, h]
        rfl
    · rfl

theorem Discreet.seq_eof {p : Parser} (hp : p.Discreet) : (seq p [eof]).Discreet := by
  intro c env s j
  rw [fst_seq_eof, fst_seq_eof, hp]

theorem answer_seq_eof (p : Parser) (o : RunOptions) (source : Source) (env : Env) (s : State) :
    (seq p [eof]).answer o source env s = (p.answer o source env s).map thenEnd := by
  unfold answer
  split
  · exact fst_seq_eof _ _ _ _
  · rfl

/-! ## Failures of the two runs -/

/-- The parser matched and left input over, which fails as given. -/
def LeavesOver (x : Except Fault Outcome) (f : Failure) : Prop :=
  ∃ v n found, x = .ok (.success v n) ∧ n.head? = some found ∧ f = leftOver n found

theorem leavesOver_success {v : Value} {n : Cursor} {f : Failure} :
    LeavesOver (.ok (.success v n)) f ↔ ∃ found, n.head? = some found ∧ f = leftOver n found := by
  constructor
  · rintro ⟨_, _, found, ⟨⟩, hfound, rfl⟩
    exact ⟨found, hfound, rfl⟩
  · rintro ⟨found, hfound, rfl⟩
    exact ⟨v, n, found, rfl, hfound, rfl⟩

end Parser

/-- The failure of a sequence whose element with the index failed as given. -/
structure Failure.IsOfElement (k : Nat) (f g : Failure) : Prop where
  kind : g.kind = .sequenceElementFailed
  index : g.index = some (k : Int)
  causes : g.causes = [f]

theorem Failure.isOfElement_ofElement {j k : Nat} {f g : Failure} :
    IsOfElement k f (g.ofElement j) ↔ j = k ∧ g = f := by
  constructor
  · rintro ⟨-, hindex, hcauses⟩
    exact ⟨Int.ofNat.inj (Option.some.inj hindex), List.head_eq_of_cons_eq hcauses⟩
  · rintro ⟨rfl, rfl⟩
    exact ⟨rfl, rfl, rfl⟩

/-- A run over a whole source and a run of the parser and then the end of the input, over
    some of the source, agree. The run of the parser alone over some of the source tells
    the failures of the parser from that of the run. -/
theorem Parser.run_whole_iff_eof {p : Parser} (hp : p.Discreet) (o : RunOptions) (source : Source)
    (env : Env) (s : State) :
    let whole := ((p.run { o with allowRest := false } source).run env s).1
    let alone := ((p.run { o with allowRest := true } source).run env s).1
    let ended := (((seq p [eof]).run { o with allowRest := true } source).run env s).1
    (∀ v n, whole = .ok (.success v n) ↔ ended = .ok (.success (.list [v, .atom ""]) n)) ∧
    (∀ v n, whole = .ok (.success v n) → n.atEnd = true) ∧
    (∀ f, whole = .ok (.failure f) ∧ alone = .ok (.failure f) ↔
      ∃ g, ended = .ok (.failure g) ∧ Failure.IsOfElement 0 f g) ∧
    (∀ f, whole = .ok (.failure f) ∧ LeavesOver alone f ↔
      ∃ g, ended = .ok (.failure g) ∧ Failure.IsOfElement 1 f g) ∧
    ∀ f, whole = .error f ↔ ended = .error f := by
  intro whole alone ended
  have hwhole : whole = _ := hp.fst_run { o with allowRest := false } source env s
  have halone : alone = _ := hp.fst_run { o with allowRest := true } source env s
  have hended : ended = _ := hp.seq_eof.fst_run { o with allowRest := true } source env s
  rw [answer_seq_eof] at hended
  -- All three runs begin alike, so the parser gives the same answer in them.
  obtain ⟨x, hx⟩ : ∃ x, p.answer o source env s = x := ⟨_, rfl⟩
  change whole = (p.answer o source env s).map _ at hwhole
  change alone = (p.answer o source env s).map _ at halone
  change ended = ((p.answer o source env s).map thenEnd).map _ at hended
  rw [hwhole, halone, hended, hx]
  clear hwhole halone hended hx
  obtain e | ⟨v, n⟩ | f := x
  · simp [Except.map, LeavesOver]
  · cases h : n.head? with
    | none =>
      have hend : n.atEnd = true := n.head?_eq_none_iff.1 h
      simp [Except.map, Outcome.whole, thenEnd, leavesOver_success, h, hend]
    | some found =>
      simp [Except.map, Outcome.whole, thenEnd, leavesOver_success, h,
        Failure.isOfElement_ofElement, trailing_eq]
  · simp [Except.map, Outcome.whole, thenEnd, LeavesOver, Failure.isOfElement_ofElement]

/-- A letter in parentheses, and another one after it. -/
theorem Parser.run_whole_iff_eof_leftOver :
    let p := (Grammar.ref "nested").parser { rules := .nested } 64
    let source : Source := #['(', 'x', ')', 'y']
    p.Discreet ∧
      ∃ f, ((p.run {} source).run { rules := .nested } {}).1 = .ok (.failure f) ∧
        f.kind = .expectedEndOfInput ∧ f.position = 3 := by
  intro p source
  have hp : p.Discreet := Grammar.parser_discreet _ _ _
  have h := (Parser.run_whole_iff_eof hp {} source { rules := .nested } {}).2.2.2.1
  obtain ⟨hwhole, -⟩ := (h _).2 ⟨_, rfl, rfl, rfl, rfl⟩
  exact ⟨hp, _, hwhole, rfl, rfl⟩

end Descent
