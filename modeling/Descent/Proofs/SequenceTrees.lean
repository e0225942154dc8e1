-- SUMMARY: How sequences are nested makes no difference but to the shape of their values and failures.
import Descent.Proofs.Parts

/-! # Nested sequences

A sequence may have sequences among its elements. However they are nested, their elements are
tried in order, each where the one before it ended, until one of them does not match. If all
of them match, then the values that are nested as the sequences are hold the same values in
the same order. Otherwise the failure is wrapped once for each sequence that it leaves, and
none of these changes what it says: `Failure.payload_ofElement`. So two ways of nesting the
same elements do the same: `SequenceTree.run_of_leaves_eq`. -/

namespace Descent

/-- What a failure says: its position, its message, what was expected, and its deepest leaf. -/
def Failure.payload (f : Failure) : Int × String × List String × Failure :=
  (f.position, f.message, f.expected, f.deepest)

/-- The failure of a sequence says what the failure of its element says. -/
theorem Failure.payload_ofElement (index : Nat) (f : Failure) :
    (f.ofElement index).payload = f.payload := rfl

/-! ## Parsers in turn -/

namespace Parser

/-- The parsers match one after the other, each where the one before it ended and in the
    state that it left. -/
inductive AllMatch (env : Env) : List Parser → Cursor → State → List Value → Cursor → State → Prop
  | nil {c : Cursor} {s : State} : AllMatch env [] c s [] c s
  | cons {p : Parser} {ps : List Parser} {c n m : Cursor} {s s₁ s' : State} {v : Value}
      {vs : List Value} :
      (p.fn c).run env s = (.ok (.success v n), s₁) → AllMatch env ps n s₁ vs m s' →
      AllMatch env (p :: ps) c s (v :: vs) m s'

/-- One of the parsers fails or is stopped. Those before it match one after the other, and
    those after it are not tried. -/
inductive Breaks (env : Env) :
    List Parser → Cursor → State → Except Fault Failure → State → Prop
  | here {p : Parser} {ps : List Parser} {c : Cursor} {s s' : State} {r : Except Fault Failure} :
      (p.fn c).run env s = (r.map .failure, s') → Breaks env (p :: ps) c s r s'
  | later {p : Parser} {ps : List Parser} {c n : Cursor} {s s₁ s' : State} {v : Value}
      {r : Except Fault Failure} :
      (p.fn c).run env s = (.ok (.success v n), s₁) → Breaks env ps n s₁ r s' →
      Breaks env (p :: ps) c s r s'

section Turns

variable {env : Env} {p : Parser} {ps qs : List Parser} {c n m : Cursor} {s s₁ s' : State}
  {v : Value} {vs : List Value} {r : Except Fault Failure}

theorem allMatch_or_breaks (env : Env) (ps : List Parser) (c : Cursor) (s : State) :
    (∃ vs n s', AllMatch env ps c s vs n s') ∨ ∃ r s', Breaks env ps c s r s' := by
  induction ps generalizing c s with
  | nil => exact .inl ⟨[], c, s, .nil⟩
  | cons p ps ih =>
    cases hrun : (p.fn c).run env s with
    | mk o s₁ =>
      obtain e | ⟨v, n⟩ | f := o
      · exact .inr ⟨.error e, s₁, .here hrun⟩
      · obtain ⟨vs, m, s', hrest⟩ | ⟨r, s', hrest⟩ := ih n s₁
        · exact .inl ⟨v :: vs, m, s', .cons hrun hrest⟩
        · exact .inr ⟨r, s', .later hrun hrest⟩
      · exact .inr ⟨.ok f, s₁, .here hrun⟩

theorem AllMatch.of_append (h : AllMatch env (ps ++ qs) c s vs m s') :
    ∃ us ws n s₁, vs = us ++ ws ∧ AllMatch env ps c s us n s₁ ∧ AllMatch env qs n s₁ ws m s' := by
  induction ps generalizing c s vs with
  | nil => exact ⟨[], vs, c, s, rfl, .nil, h⟩
  | cons p ps ih =>
    obtain _ | ⟨hrun, hrest⟩ := h
    obtain ⟨us, ws, n, s₁, rfl, hps, hqs⟩ := ih hrest
    exact ⟨_ :: us, ws, n, s₁, rfl, .cons hrun hps, hqs⟩

theorem Breaks.of_append (h : Breaks env (ps ++ qs) c s r s') :
    Breaks env ps c s r s' ∨
      ∃ us n s₁, AllMatch env ps c s us n s₁ ∧ Breaks env qs n s₁ r s' := by
  induction ps generalizing c s with
  | nil => exact .inr ⟨[], c, s, .nil, h⟩
  | cons p ps ih =>
    cases h with
    | here hrun => exact .inl (.here hrun)
    | later hrun hrest =>
      obtain hps | ⟨us, n, s₁, hps, hqs⟩ := ih hrest
      · exact .inl (.later hrun hps)
      · exact .inr ⟨_ :: us, n, s₁, .cons hrun hps, hqs⟩

/-! ## What a sequence makes of its elements -/

theorem run_seqFrom_cons (hrun : (p.fn c).run env s = (.ok (.success v n), s₁)) (index : Nat)
    (values : List Value) :
    (seqFrom index values (p :: ps) c).run env s =
      (seqFrom (index + 1) (v :: values) ps n).run env s₁ := by
  rw [seqFrom, Eval.run_bind_of_ok hrun]

theorem AllMatch.run_seqFrom (h : AllMatch env ps c s vs n s') (index : Nat)
    (values : List Value) :
    (seqFrom index values ps c).run env s =
      (.ok (.success (.list (values.reverse ++ vs)) n), s') := by
  induction h generalizing index values with
  | nil =>
    rw [List.append_nil]
    rfl
  | cons hrun _ ih =>
    rw [run_seqFrom_cons hrun, ih, List.reverse_cons, List.append_assoc, List.singleton_append]

/-- Where an element fails, the sequence fails with it as the only cause, and where one is
    stopped, so is the sequence. -/
theorem Breaks.run_seqFrom_eq (h : Breaks env ps c s r s') (index : Nat) (values : List Value) :
    ∃ k, (seqFrom index values ps c).run env s =
      (r.map fun f => .failure (f.ofElement k), s') := by
  induction h generalizing index values with
  | @here p ps c s s' r hrun =>
    cases r with
    | error e => exact ⟨index, Eval.run_bind_of_error hrun⟩
    | ok f => exact ⟨index, Eval.run_bind_of_ok hrun⟩
  | later hrun _ ih =>
    rw [run_seqFrom_cons hrun]
    exact ih (index + 1) _

/-- The sequence says what the element says that fails. -/
theorem Breaks.run_seqFrom (h : Breaks env ps c s r s') (index : Nat) (values : List Value) :
    ∃ r' : Except Fault Failure, (seqFrom index values ps c).run env s = (r'.map .failure, s') ∧
      r'.map Failure.payload = r.map Failure.payload := by
  obtain ⟨k, hrun⟩ := h.run_seqFrom_eq index values
  refine ⟨r.map (·.ofElement k), ?_, ?_⟩
  · rw [hrun]
    cases r with
    | error e | ok f => rfl
  · cases r with
    | error e => rfl
    | ok f => exact congrArg Except.ok (f.payload_ofElement k)

end Turns

end Parser

/-! ## Trees of sequences -/

/-- Parsers put together by sequences. -/
inductive SequenceTree
  | leaf (p : Parser)
  | seq (first : SequenceTree) (rest : List SequenceTree)

namespace SequenceTree

mutual
/-- The parsers that are put together, from left to right. -/
def leaves : SequenceTree → List Parser
  | .leaf p => [p]
  | .seq t ts => t.leaves ++ allLeaves ts

/-- The parsers that are put together in several trees. -/
def allLeaves : List SequenceTree → List Parser
  | [] => []
  | t :: ts => t.leaves ++ allLeaves ts
end

mutual
/-- The parser that a tree stands for. -/
def parser : SequenceTree → Parser
  | .leaf p => p
  | .seq t ts => t.parser.seq (parsers ts)

/-- The parsers that several trees stand for. -/
def parsers : List SequenceTree → List Parser
  | [] => []
  | t :: ts => t.parser :: parsers ts
end

mutual
/-- The values of the leaves in a value of the tree. -/
def flatten : SequenceTree → Value → List Value
  | .leaf _, v => [v]
  | .seq t ts, .list (v :: vs) => t.flatten v ++ flattenAll ts vs
  | .seq _ _, _ => []

/-- The values of the leaves in values of several trees. -/
def flattenAll : List SequenceTree → List Value → List Value
  | t :: ts, v :: vs => t.flatten v ++ flattenAll ts vs
  | _, _ => []
end

/-- Induction over trees, for the elements of a sequence at once. -/
@[elab_as_elim]
theorem induct {motive : SequenceTree → Prop} (leaf : ∀ p, motive (.leaf p))
    (seq : ∀ t ts, (∀ u ∈ t :: ts, motive u) → motive (.seq t ts)) (t : SequenceTree) :
    motive t :=
  @SequenceTree.rec motive (fun ts => ∀ u ∈ ts, motive u) leaf
    (fun t ts ht hts => seq t ts (List.forall_mem_cons.2 ⟨ht, hts⟩))
    (fun _ h => absurd h List.not_mem_nil)
    (fun _ _ ht hts => List.forall_mem_cons.2 ⟨ht, hts⟩) t

theorem leaves_seq (t : SequenceTree) (ts : List SequenceTree) :
    (seq t ts).leaves = allLeaves (t :: ts) := rfl

theorem flatten_seq (t : SequenceTree) (ts : List SequenceTree) (vs : List Value) :
    (seq t ts).flatten (.list vs) = flattenAll (t :: ts) vs := by
  cases vs with
  | nil | cons v vs => rfl

section Runs

variable {env : Env} {t : SequenceTree} {ts : List SequenceTree} {c n : Cursor} {s s' : State}
  {vs : List Value} {r : Except Fault Failure}

/-- The tree matches with a value that holds the values. -/
def Matches (env : Env) (t : SequenceTree) (c : Cursor) (s : State) (vs : List Value) (n : Cursor)
    (s' : State) : Prop :=
  ∃ v, (t.parser.fn c).run env s = (.ok (.success v n), s') ∧ t.flatten v = vs

/-- The tree is stopped by the fault, or it says what the failure says. -/
def Fails (env : Env) (t : SequenceTree) (c : Cursor) (s : State) (r : Except Fault Failure)
    (s' : State) : Prop :=
  ∃ r' : Except Fault Failure, (t.parser.fn c).run env s = (r'.map .failure, s') ∧
    r'.map Failure.payload = r.map Failure.payload

theorem Fails.run_of_error {e : Fault} (h : t.Fails env c s (.error e) s') :
    (t.parser.fn c).run env s = (.error e, s') := by
  obtain ⟨e' | g, hrun, heq⟩ := h
  · cases heq
    exact hrun
  · cases heq

theorem Fails.exists_failure {f : Failure} (h : t.Fails env c s (.ok f) s') :
    ∃ g, (t.parser.fn c).run env s = (.ok (.failure g), s') ∧ g.payload = f.payload := by
  obtain ⟨e | g, hrun, heq⟩ := h
  · cases heq
  · exact ⟨g, hrun, Except.ok.inj heq⟩

/-- Trees match in turn where each of them matches as soon as its leaves do. -/
theorem allMatch_parsers
    (hts : ∀ t ∈ ts, ∀ {c n s s' vs}, Parser.AllMatch env t.leaves c s vs n s' →
      t.Matches env c s vs n s') (h : Parser.AllMatch env (allLeaves ts) c s vs n s') :
    ∃ ws, Parser.AllMatch env (parsers ts) c s ws n s' ∧ flattenAll ts ws = vs := by
  induction ts generalizing c s vs with
  | nil =>
    cases h
    exact ⟨[], .nil, rfl⟩
  | cons t ts ih =>
    obtain ⟨ht, hts⟩ := List.forall_mem_cons.1 hts
    obtain ⟨us, vs', m, s₁, rfl, hfirst, hrest⟩ := Parser.AllMatch.of_append h
    obtain ⟨v, hrun, rfl⟩ := ht hfirst
    obtain ⟨ws, hparsers, rfl⟩ := ih hts hrest
    exact ⟨v :: ws, .cons hrun hparsers, rfl⟩

theorem matches_of_leaves (h : Parser.AllMatch env t.leaves c s vs n s') :
    t.Matches env c s vs n s' := by
  induction t using induct generalizing c s vs n s' with
  | leaf p =>
    obtain _ | ⟨hrun, ⟨⟩⟩ := h
    exact ⟨_, hrun, rfl⟩
  | seq t ts ih =>
    rw [leaves_seq] at h
    obtain ⟨ws, hparsers, hflat⟩ := allMatch_parsers ih h
    rw [← flatten_seq] at hflat
    exact ⟨.list ws, hparsers.run_seqFrom 0 [], hflat⟩

theorem breaks_parsers
    (hts : ∀ t ∈ ts, ∀ {c s s' r}, Parser.Breaks env t.leaves c s r s' → t.Fails env c s r s')
    (h : Parser.Breaks env (allLeaves ts) c s r s') :
    ∃ r', Parser.Breaks env (parsers ts) c s r' s' ∧
      r'.map Failure.payload = r.map Failure.payload := by
  induction ts generalizing c s with
  | nil => cases h
  | cons t ts ih =>
    obtain ⟨ht, hts⟩ := List.forall_mem_cons.1 hts
    obtain hfirst | ⟨us, m, s₁, hfirst, hrest⟩ := Parser.Breaks.of_append h
    · obtain ⟨r', hrun, heq⟩ := ht hfirst
      exact ⟨r', .here hrun, heq⟩
    · obtain ⟨v, hrun, -⟩ := matches_of_leaves hfirst
      obtain ⟨r', hparsers, heq⟩ := ih hts hrest
      exact ⟨r', .later hrun hparsers, heq⟩

theorem fails_of_leaves (h : Parser.Breaks env t.leaves c s r s') : t.Fails env c s r s' := by
  induction t using induct generalizing c s r s' with
  | leaf p =>
    obtain hrun | ⟨-, ⟨⟩⟩ := h
    exact ⟨r, hrun, rfl⟩
  | seq t ts ih =>
    rw [leaves_seq] at h
    obtain ⟨r₁, hparsers, heq⟩ := breaks_parsers ih h
    obtain ⟨r₂, hrun, heq'⟩ := hparsers.run_seqFrom 0 []
    exact ⟨r₂, hrun, heq'.trans heq⟩

end Runs

/-- Sequences of whatever nesting that put the same parsers together do the same at every
    cursor. Both try these parsers in order, each where the one before it ended, until one
    does not match. If all of them match, then both hold their values in order and end at the
    same cursor. If one fails, then both say what it says, and a fault stops both. -/
theorem run_of_leaves_eq {t u : SequenceTree} (hleaves : u.leaves = t.leaves) (env : Env)
    (c : Cursor) (s : State) :
    (∃ vs n s' v w, Parser.AllMatch env t.leaves c s vs n s' ∧
        (t.parser.fn c).run env s = (.ok (.success v n), s') ∧ t.flatten v = vs ∧
        (u.parser.fn c).run env s = (.ok (.success w n), s') ∧ u.flatten w = vs) ∨
      (∃ f s' g h, Parser.Breaks env t.leaves c s (.ok f) s' ∧
        (t.parser.fn c).run env s = (.ok (.failure g), s') ∧ g.payload = f.payload ∧
        (u.parser.fn c).run env s = (.ok (.failure h), s') ∧ h.payload = f.payload) ∨
      ∃ e s', Parser.Breaks env t.leaves c s (.error e) s' ∧
        (t.parser.fn c).run env s = (.error e, s') ∧
        (u.parser.fn c).run env s = (.error e, s') := by
  obtain ⟨vs, n, s', hall⟩ | ⟨e | f, s', hbreaks⟩ := Parser.allMatch_or_breaks env t.leaves c s
  · obtain ⟨v, ht, hv⟩ := matches_of_leaves hall
    obtain ⟨w, hu, hw⟩ := matches_of_leaves (hleaves ▸ hall)
    exact .inl ⟨vs, n, s', v, w, hall, ht, hv, hu, hw⟩
  · have ht := (fails_of_leaves hbreaks).run_of_error
    have hu := (fails_of_leaves (hleaves ▸ hbreaks)).run_of_error
    exact .inr (.inr ⟨e, s', hbreaks, ht, hu⟩)
  · obtain ⟨g, ht, hg⟩ := (fails_of_leaves hbreaks).exists_failure
    obtain ⟨h, hu, hh⟩ := (fails_of_leaves (hleaves ▸ hbreaks)).exists_failure
    exact .inr (.inl ⟨f, s', g, h, hbreaks, ht, hg, hu, hh⟩)

/-- Four letters, put together from the left and from the right. Where the third one is
    missing, one failure is wrapped once and the other one twice, and neither of the sequences
    tries the fourth. -/
theorem run_of_leaves_eq_letters :
    let env : Env := { rules := .nested }
    let leaf (ch : Char) : SequenceTree := .leaf ((Parser.char ch).mark (String.singleton ch))
    let t : SequenceTree := .seq (.seq (leaf 'a') [leaf 'b']) [leaf 'c', leaf 'd']
    let u : SequenceTree := .seq (leaf 'a') [.seq (leaf 'b') [leaf 'c', leaf 'd']]
    let c : Cursor := .start #['a', 'b', 'd']
    u.leaves = t.leaves ∧ ∃ g h s', (t.parser.fn c).run env {} = (.ok (.failure g), s') ∧
      (u.parser.fn c).run env {} = (.ok (.failure h), s') ∧ g.causes.map (·.index) = [none] ∧
      h.causes.map (·.index) = [some 1] ∧ h.payload = g.payload ∧ g.position = 2 ∧
      s'.journal = [.mark "c" 2, .mark "b" 1, .mark "a" 0] := by
  intro env leaf t u c
  refine ⟨rfl, ?_⟩
  obtain ⟨_, _, _, _, _, -, h, -⟩ | ⟨f, s', g, h, -, ht, hg, hu, hh⟩ | ⟨_, _, -, h, -⟩ :=
    run_of_leaves_eq (t := t) (u := u) rfl env c {}
  · cases h
  · have hpayload : h.payload = g.payload := hh.trans hg.symm
    cases ht
    cases hu
    exact ⟨_, _, _, rfl, rfl, rfl, rfl, hpayload, rfl, rfl⟩
  · cases h

end SequenceTree

end Descent
