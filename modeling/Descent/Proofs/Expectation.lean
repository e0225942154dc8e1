-- SUMMARY: What a failure lists as expected, its leaves were looking for.
import Descent.Proofs.Bounds

/-! # What was expected

A failure lists what would have been accepted at its position. All of it comes from
leaves of its tree: from those at the same position, because sequences and choices take
over position and list together. A repetition that has to match once does not. It
reports the place where it began, with the list of a failure that may lie further on.
`Grammar.call_expected` says that nothing else tears the two apart. -/

namespace Descent

namespace Failure

/-! ## Where the list comes from -/

/-- A leaf of the tree that was looking for the text. -/
structure LookedFor (f : Failure) (e : String) (leaf : Failure) : Prop where
  contains : f.Contains leaf
  causes : leaf.causes = []
  expected : e ∈ leaf.expected

/-- The leaf lies further on, in the cause of a repetition that stands where the failure
    does although its cause does not. -/
def Drifts (f leaf : Failure) : Prop :=
  f.position < leaf.position ∧
    ∃ m cause, f.Contains m ∧ m.kind = .insufficientRepetition ∧ m.position = f.position ∧
      cause ∈ m.causes ∧ m.position < cause.position ∧ cause.Contains leaf

/-- A leaf was looking for the text, where the failure is or in a repetition there. -/
def Grounds (f : Failure) (e : String) : Prop :=
  ∃ leaf, f.LookedFor e leaf ∧ (leaf.position = f.position ∨ f.Drifts leaf)

section Grounds

variable {f h : Failure} {e : String}

/-- A cause at the same position hands its grounds on. -/
theorem Grounds.lift (hf : f.Grounds e) (hmem : f ∈ h.causes)
    (hposition : f.position = h.position) :
    h.Grounds e := by
  obtain ⟨leaf, ⟨hcontains, hcauses, hexpected⟩, hplace⟩ := hf
  refine ⟨leaf, ⟨.cause hmem hcontains, hcauses, hexpected⟩, ?_⟩
  rw [← hposition]
  rcases hplace with heq | ⟨hlt, m, cause, hm, hkind, hat, hcause, hfurther, hleaf⟩
  · exact .inl heq
  · refine .inr ⟨?_, m, cause, .cause hmem hm, hkind, ?_, hcause, hfurther, hleaf⟩
    · rw [← hposition]
      exact hlt
    · rw [hat, hposition]

/-- A repetition whose cause lies further on is what the list and the position come apart
    in. -/
theorem Grounds.insufficient {c : Cursor} (hf : f.Grounds e) (hspans : c.Spans f.position)
    (parser : String) : (f.insufficient parser c).Grounds e := by
  have hmem : f ∈ (f.insufficient parser c).causes := List.mem_cons_self
  rcases eq_or_lt_of_le hspans.1 with heq | hlt
  · exact hf.lift hmem heq.symm
  · obtain ⟨leaf, ⟨hcontains, hcauses, hexpected⟩, hplace⟩ := hf
    have hfurther : (c.pos : Int) < leaf.position := by
      rcases hplace with heq | hdrifts
      · rw [heq]
        exact hlt
      · exact hlt.trans hdrifts.1
    refine ⟨leaf, ⟨.cause hmem hcontains, hcauses, hexpected⟩, .inr ⟨hfurther, ?_⟩⟩
    exact ⟨_, f, .self _, rfl, rfl, hmem, hlt, hcontains⟩

theorem mem_addNew {seen es : List String} : e ∈ addNew seen es ↔ e ∈ seen ∨ e ∈ es := by
  induction es generalizing seen with
  | nil => simp [addNew]
  | cons x xs ih =>
    rw [addNew, ih, List.mem_cons]
    split
    · rename_i hx
      constructor
      · intro h
        exact h.imp_right .inr
      · intro h
        rcases h with h | rfl | h
        · exact .inl h
        · exact .inl hx
        · exact .inr h
    · rw [List.mem_append, List.mem_singleton, or_assoc]

/-- A failed choice expects what its furthest causes do. -/
theorem mem_expectedAt {position : Int} {fs : List Failure} :
    e ∈ expectedAt position fs ↔ ∃ f ∈ fs, f.position = position ∧ e ∈ f.expected := by
  simp [expectedAt, mem_addNew, and_assoc]

end Grounds

/-- A failure lies ahead of the cursor and has grounds for what it lists, if its causes do. -/
theorem grounds_inherited :
    Inherited fun c f => c.Spans f.position ∧ ∀ e ∈ f.expected, f.Grounds e where
  back := fun hn hf => ⟨hn.spans hf.1, hf.2⟩
  leaf := fun c kind d => ⟨c.spans_self, fun e he => ⟨_, ⟨.self _, rfl, he⟩, .inl rfl⟩⟩
  element := fun index hf => ⟨hf.1, fun e he => (hf.2 e he).lift List.mem_cons_self rfl⟩
  insufficient := fun parser hf =>
    ⟨Cursor.spans_self _, fun e he => (hf.2 e he).insufficient hf.1 parser⟩
  alternatives := by
    intro c bs h hh hall
    refine ⟨spans_inherited.alternatives hh fun g hg => (hall g hg).1, fun e he => ?_⟩
    rw [(eq_of_alternatives hh).2.2] at he
    obtain ⟨g, hg, hposition, he⟩ := mem_expectedAt.1 he
    exact ((hall g hg).2 e he).lift hg hposition

end Failure

/-! ## Answers -/

/-- What a failure in the tree of an answer lists as expected, a leaf of its own tree was
    looking for: at the same position, or further on in a repetition at that position
    whose cause lies further on. -/
theorem Grammar.call_expected {parts : Parts} (hauthor : ∀ fn, ¬ parts.author fn) {env : Env}
    (hrules : env.rules.Use parts) {g : Grammar} (hg : g.Uses parts) {s s' : State}
    (hs : s.Faithful env.rules) {c : Cursor} {f : Failure}
    (h : (g.call c).run env s = (.ok (.failure f), s')) {b : Failure} (hb : f.Contains b)
    {e : String} (he : e ∈ b.expected) :
    ∃ leaf, b.Contains leaf ∧ leaf.causes = [] ∧ e ∈ leaf.expected ∧
      (leaf.position = b.position ∨ b.Drifts leaf) := by
  have hyields : Yields env.rules g c (.failure f) := (yields_of_call hauthor hrules hg hs h).1
  have hgrounds : b.Grounds e := (hyields.inherits Failure.grounds_inherited b hb).2 e he
  obtain ⟨leaf, ⟨hcontains, hcauses, hexpected⟩, hplace⟩ := hgrounds
  exact ⟨leaf, hcontains, hcauses, hexpected, hplace⟩

/-- A text to be repeated. -/
def Grammar.pair : Grammar := .seq (.char 'a') [.char 'b']

/-- The failure of the repetition where the second letter is another one. -/
def Failure.halfway : Failure :=
  let found : Diagnostic := .unexpectedChar (quoteChar 'b') "c"
  ((ofDiagnostic .unexpectedChar 1 found).ofElement 1).insufficient
    (Grammar.pair.name Rules.nested.ruleName) (.start #['a', 'c'])

theorem Grammar.run_pair : ((Grammar.many1 .pair).call (.start #['a', 'c'])).run
    { rules := .nested } {} = (.ok (.failure .halfway), {}) := by
  rw [run_call]
  unfold parser denote Parser.many1
  dsimp only
  rw [Parser.repeated_eq, Parser.repeatFrom_eq]
  rfl

/-- The repetition fails where it began. What it expected there was looked for after the
    first letter. -/
theorem Grammar.call_expected_halfway :
    ∃ leaf, Failure.halfway.Contains leaf ∧ leaf.causes = [] ∧ quoteChar 'b' ∈ leaf.expected ∧
      (leaf.position = 0 ∨ Failure.halfway.Drifts leaf) := by
  let env : Env := { rules := .nested }
  have hrules : env.rules.Use .bare := Rules.nested_use _ fun _ => trivial
  have hg : (Grammar.many1 .pair).Uses .bare := ⟨trivial, trivial, trivial⟩
  have hb : quoteChar 'b' ∈ Failure.halfway.expected := List.mem_singleton_self _
  exact Grammar.call_expected (fun _ => id) hrules hg (State.faithful_init _) Grammar.run_pair
    (.self _) hb

/-- Yet no leaf of that failure lies at its position. -/
theorem Grammar.call_expected_elsewhere :
    (((Grammar.many1 .pair).call (.start #['a', 'c'])).run { rules := .nested } {}).1 =
        .ok (.failure .halfway) ∧
      quoteChar 'b' ∈ Failure.halfway.expected ∧
      ∀ leaf, Failure.halfway.Contains leaf → leaf.causes = [] →
        leaf.position ≠ Failure.halfway.position := by
  refine ⟨congrArg Prod.fst run_pair, List.mem_singleton_self _, fun leaf h hleaf => ?_⟩
  -- Down the tree from the failure of the repetition to that of the second letter.
  cases h with
  | self => cases hleaf
  | cause he h =>
    cases List.mem_singleton.1 he
    cases h with
    | self => cases hleaf
    | cause he h =>
      cases List.mem_singleton.1 he
      cases h with
      | self => decide
      | cause he _ => cases he

end Descent
