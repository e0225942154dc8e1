-- SUMMARY: A failure without causes says what is the case where it lies.
import Descent.Proofs.DeepestLeaf
import Descent.Proofs.FailureShape

/-! # What leaves say

A failure without causes is about one place of the source: a character or a text is not the one
that the grammar asks for, the source ends too early or goes on, or something matches that must
not. This is so (`Failure.Accurate`), however deep in the grammar the failure was made and
whatever was tried before and after it: `Grammar.leaves_accurate`. A failure does not name its
parser, but the grammar has one that made it at this place. -/

namespace Descent

/-! ## Parts of allowed grammars -/

namespace Grammar

section Reaches

variable {rules : Rules} {parts : Parts} {g h k : Grammar}

theorem Uses.child (hrules : rules.Use parts) (hg : g.Uses parts) (hh : h ∈ g.children rules) :
    h.Uses parts := by
  cases g with
  | char | literal | satisfy | eof | spaces | author => cases hh
  | either a b | both a b | sepBy a b | sepBy1 a b =>
    obtain ⟨ha, hb⟩ := hg
    exact List.forall_mem_cons.2 ⟨ha, List.forall_mem_singleton.2 hb⟩ h hh
  | choice p ps | seq p ps =>
    obtain ⟨hp, hps⟩ := hg
    exact List.forall_mem_cons.2 ⟨hp, allUse_iff.1 hps⟩ h hh
  | between o p q =>
    obtain ⟨ho, hp, hq⟩ := hg
    exact List.forall_mem_cons.2 ⟨ho, List.forall_mem_cons.2 ⟨hp, List.forall_mem_singleton.2 hq⟩⟩
      h hh
  | absent p | many p | many1 p | optional p | token p | named _ p | mark _ p =>
    cases List.mem_singleton.1 hh
    exact hg
  | map p _ =>
    cases List.mem_singleton.1 hh
    exact hg.1
  | mapRun p _ _ =>
    cases List.mem_singleton.1 hh
    exact hg.2.1
  | ref r => exact (hrules r hg).parser (Option.mem_toList.1 hh)

theorem Reaches.uses (hrules : rules.Use parts) (h : g.Reaches rules k) (hg : g.Uses parts) :
    k.Uses parts := by
  induction h with
  | self => exact hg
  | child hh _ ih => exact ih (hg.child hrules hh)

end Reaches

/-! ## What a leaf is right about -/

/-- The character is not the one that the grammar asks for, or does not pass its test. -/
inductive Refuses (found : Char) : Grammar → String → Prop
  | char {ch : Char} : found ≠ ch → Refuses found (.char ch) (quoteChar ch)
  | satisfy {description : String} {p : Predicate} :
      p.test found = .ok false → Refuses found (.satisfy description p) description

/-- The grammar matches at the cursor in every run that nothing but the depth limit can stop,
    unless that limit does, which does not happen from some limit on. -/
def Succeeds (rules : Rules) (parts : Parts) (g : Grammar) (c : Cursor) : Prop :=
  ∃ v n, (∀ env s, Unhindered rules parts env s →
      ((g.call c).run env s).1 = .ok (.success v n) ∨
        ∃ f, ((g.call c).run env s).1 = .error f ∧ f.IsDepth) ∧
    ∃ N, ∀ env s, Unhindered rules parts env s → N ≤ env.allowance →
      ((g.call c).run env s).1 = .ok (.success v n)

theorem succeeds_of_yields {rules : Rules} {parts : Parts}
    (htrigger : ∀ p, parts.predicate p → p.trigger = none) (hruns : ¬ parts.mappingRuns)
    (hrules : rules.Construct parts) {g : Grammar} (hg : g.Uses parts) {c n : Cursor} {v : Value}
    (h : Yields rules g c (.success v n)) : g.Succeeds rules parts c := by
  obtain ⟨N, hN⟩ := h.eventually_answers htrigger hruns hrules hg
  refine ⟨v, n, fun _ _ hs => h.answers_or_depth htrigger hruns hrules hg hs, N, ?_⟩
  intro env s hs hle
  rw [run_call]
  exact hN env s hs _ hle

end Grammar

/-- Grammars of the library whose predicates are pure: no parsing function was written by the
    author, and builders and mapping functions start no runs. -/
def Parts.library (used : Rule → Prop) : Parts where
  predicate := fun p => p.trigger = none
  author := fun _ => False
  rule := used
  mappingRuns := False
  builderRuns := False

/-- What the failure says about the offset is the case there, and the grammar has a part that
    says so. A part that must not match did match. It does so in every run if its predicates
    have no effects and neither its mapping functions nor the builders of its rules start runs;
    otherwise another run may find something else. This is not about failures that are made of
    others. -/
def Failure.Accurate (rules : Rules) (g : Grammar) (source : Source) (q : Nat) (f : Failure) :
    Prop :=
  match f.kind with
  | .unexpectedChar => ∃ found h description, source[q]? = some found ∧ g.Reaches rules h ∧
      h.Refuses found description ∧ f.expected = [description] ∧
      f.message = "Expected " ++ description ++ " but found " ++ quote (String.singleton found)
  | .unexpectedLiteral => ∃ s, g.Reaches rules (.literal s) ∧ q + s.length ≤ source.size ∧
      Text.window source q (q + s.length) ≠ s ∧ f.message =
        "Expected " ++ quote s ++ " but found " ++ quote (Text.window source q (q + s.length))
  | .endOfInput => ∃ expected, f.expected = [expected] ∧
      f.message = "Unexpected end of input, expected " ++ expected ∧
      (q = source.size ∨ ∃ s, g.Reaches rules (.literal s) ∧ expected = quote s ∧
        source.size < q + s.length)
  | .expectedEndOfInput => ∃ found, source[q]? = some found ∧
      f.message = "Expected end of input but found " ++ quote (String.singleton found)
  | .notExpected => ∃ p, g.Reaches rules (.absent p) ∧
      f.message = "Unexpected " ++ p.name rules.ruleName ∧ ∃ hq : q ≤ source.size,
        (∃ v n, Yields rules p ⟨source, q, hq⟩ (.success v n)) ∧
          ∀ used, rules.Construct (.library used) → p.Uses (.library used) →
            p.Succeeds rules (.library used) ⟨source, q, hq⟩
  | .insufficientRepetition | .allAlternativesFailed | .sequenceElementFailed => False

section Leaves

variable {rules : Rules} {g h : Grammar} {c n : Cursor} {e : Failure}

/-- A grammar that makes a leaf is right about the cursor where it was tried. -/
theorem Yields.accurate (hh : g.Makers rules h) (hy : Yields rules h n (.failure e))
    (hleaf : e.causes = []) : e.position = n.pos ∧ e.Accurate rules g n.source n.pos := by
  obtain ⟨hreaches, hmakes⟩ := hh
  cases h with
  | char ch =>
    cases hy with
    | char_end hend =>
      have hpos := n.atEnd_iff.1 (n.head?_eq_none_iff.1 hend)
      exact ⟨rfl, _, rfl, rfl, .inl hpos⟩
    | char_other hfound hne => exact ⟨rfl, _, _, _, hfound, hreaches, .char hne, rfl, rfl⟩
  | literal s =>
    cases hy with
    | literal_end hread =>
      have hshort : n.source.size < n.pos + s.length := by
        simp only [Cursor.canRead, decide_eq_false_iff_not] at hread
        omega
      exact ⟨rfl, _, rfl, rfl, .inr ⟨s, hreaches, rfl, hshort⟩⟩
    | literal_other hread htext =>
      have hlong : n.pos + s.length ≤ n.source.size := by
        simp only [Cursor.canRead, decide_eq_true_eq] at hread
        omega
      exact ⟨rfl, s, hreaches, hlong, htext, rfl⟩
  | satisfy description p =>
    cases hy with
    | satisfy_end hend =>
      have hpos := n.atEnd_iff.1 (n.head?_eq_none_iff.1 hend)
      exact ⟨rfl, _, rfl, rfl, .inl hpos⟩
    | satisfy_other hfound htest =>
      exact ⟨rfl, _, _, _, hfound, hreaches, .satisfy htest, rfl, rfl⟩
  | eof =>
    cases hy with
    | eof_rest hfound => exact ⟨rfl, _, hfound, rfl⟩
  | absent p =>
    cases hy with
    | absent_found hp =>
      refine ⟨rfl, p, hreaches, rfl, n.pos_le, ⟨_, _, hp⟩, fun used hrules hg => ?_⟩
      exact Grammar.succeeds_of_yields (fun _ h => h) id hrules hg hp
  -- What sequences and repetitions make has a cause.
  | seq | many1 => cases hy <;> cases hleaf
  | _ => exact hmakes.elim

/-- What must not match in a grammar of the library matches in every run. -/
theorem Failure.Accurate.succeeds {source : Source} {q : Nat} (h : e.Accurate rules g source q)
    (hkind : e.kind = .notExpected) {used : Rule → Prop}
    (hrules : rules.Construct (.library used)) (hg : g.Uses (.library used)) :
    ∃ p, g.Reaches rules (.absent p) ∧
      ∃ hq : q ≤ source.size, p.Succeeds rules (.library used) ⟨source, q, hq⟩ := by
  unfold Failure.Accurate at h
  rw [hkind] at h
  obtain ⟨p, hreaches, -, hq, -, hsucceeds⟩ := h
  have habsent : (Grammar.absent p).Uses (.library used) := hreaches.uses hrules.use hg
  have hp : p.Uses (.library used) := habsent
  exact ⟨p, hreaches, hq, hsucceeds used hrules hp⟩

/-- The failure is accurate about some offset of the source, which is its position. -/
def Failure.Located (rules : Rules) (g : Grammar) (source : Source) (f : Failure) : Prop :=
  ∃ q : Nat, f.position = q ∧ q ≤ source.size ∧ f.Accurate rules g source q

/-- All leaves in the tree of an answer are accurate. -/
theorem Yields.fails_located {o : Outcome} (h : Yields rules g c o) :
    o.Fails fun e => e.causes = [] → e.Located rules g c.source := by
  cases o with
  | success => trivial
  | failure f =>
    intro e he hleaf
    obtain ⟨m, n, hm, hn, hy⟩ := h.leaf_made he hleaf
    obtain ⟨hposition, haccurate⟩ := hy.accurate hm hleaf
    have hle := n.pos_le
    rw [hn.source] at hle haccurate
    exact ⟨n.pos, hposition, hle, haccurate⟩

end Leaves

/-- Every leaf of a failure that a grammar answers with, at a cursor or in a run, is accurate
    about the offset at which it lies. The grammar has no parsing function of the author; what
    its predicates and mapping functions do besides to answer does not matter here, and neither
    do rules that it does not reach. -/
theorem Grammar.leaves_accurate {rules : Rules} {parts : Parts}
    (hauthor : ∀ fn, ¬ parts.author fn) (hrules : rules.Use parts) {g : Grammar}
    (hg : g.Uses parts) {env : Env} (henv : env.rules = rules) {s s' : State}
    (hs : s.Faithful rules) {source : Source} {f : Failure}
    (h : (∃ c : Cursor, c.source = source ∧ (g.call c).run env s = (.ok (.failure f), s')) ∨
      ∃ o, (g.run o source).run env s = (.ok (.failure f), s'))
    {e : Failure} (he : e ∈ f.leaves) : e.Located rules g source := by
  subst henv
  obtain ⟨he, hleaf⟩ := Failure.mem_leaves_iff.1 he
  rcases h with ⟨c, rfl, h⟩ | ⟨o, h⟩
  · exact (yields_of_call hauthor hrules hg hs h).1.fails_located e he hleaf
  · obtain ⟨out, hout, hyields⟩ := yields_of_run hauthor hrules hg hs h
    have hfails := hyields.fails_located.whole_of_rest ?_ o
    · rw [← hout] at hfails
      exact hfails e he hleaf
    · rintro v n found rfl hfound
      have hn : n.source = source := hyields.onward.source
      subst hn
      refine Failure.throughout_iff.2 ⟨fun _ => ?_, fun _ h => absurd h List.not_mem_nil⟩
      exact ⟨n.pos, rfl, n.pos_le, found, hfound, rfl⟩

/-- Leaves of all kinds. Those of characters come from the rule and from rules inside it, and
    the parenthesis that must not be there is found in every run. -/
theorem Grammar.leaves_accurate_nested :
    let env : Env := { rules := .nested, scope := some { guard := ⟨9, 0⟩ } }
    let g : Grammar := .choice (.absent (.char '(')) [.eof, .literal "(y", .literal "(x)!",
      .ref "nested"]
    let source : Source := #['(', '(', ']']
    ∃ f s', (g.call (.start source)).run env {} = (.ok (.failure f), s') ∧
      f.leaves.map Failure.kind = [.notExpected, .expectedEndOfInput, .unexpectedLiteral,
        .endOfInput, .unexpectedChar, .unexpectedChar, .unexpectedChar, .unexpectedChar] ∧
      ∀ e ∈ f.leaves, e.Located env.rules g source ∧
        (e.kind = .notExpected → ∃ p c, g.Reaches env.rules (.absent p) ∧
          p.Succeeds env.rules (.library fun _ => True) c) := by
  intro env g source
  have hrules : Rules.nested.Construct (.library fun _ => True) :=
    fun r hr => ⟨_, rfl, Rules.nested_use _ (fun _ => trivial) r hr⟩
  have hg : g.Uses (.library fun _ => True) :=
    ⟨trivial, trivial, trivial, trivial, trivial, trivial⟩
  have henv : env.rules = .nested := rfl
  refine ⟨_, _, rfl, rfl, fun e he => ?_⟩
  have hlocated : e.Located env.rules g source :=
    leaves_accurate (fun _ => id) hrules.use hg henv (State.faithful_init _)
      (.inl ⟨.start source, rfl, rfl⟩) he
  refine ⟨hlocated, fun hkind => ?_⟩
  obtain ⟨q, -, -, haccurate⟩ := hlocated
  obtain ⟨p, hreaches, _, hp⟩ := haccurate.succeeds hkind hrules hg
  exact ⟨p, _, hreaches, hp⟩

end Descent
