-- SUMMARY: What a grammar answers at a cursor does not depend on the text before the cursor.
import Descent.Proofs.Lockstep

/-! # No look-behind

The parsers of the library look at what is left of the source and never at what
was read before, and they compare positions only with one another. So a text in
front of the source moves every position of an answer on by its length and
changes nothing else: `Grammar.call_shift`.

Two kinds of parts are left out. A parsing function that an author wrote can look
at the whole source, and a run that a mapping function starts reads a source of
its own, whose positions are not moved on. -/

namespace Descent

namespace Comparison

/-- The comparison with an evaluation in the source with `u` in front. A fault
    that a function of the author raises is not moved on. -/
def shifted (parts : Parts) (u : Source) : Comparison where
  parts := parts
  lead := u
  scopes := Eq
  faults := fun f f' => f' = f.shift u.size ∨ parts.Raises f ∧ f' = f

theorem shifted_lawful (parts : Parts) (u : Source) : (shifted parts u).Lawful :=
  .of_same (fun _ => .inl rfl) rfl

theorem shifted_allows {parts : Parts} (hauthor : ∀ fn, ¬ parts.author fn) (u : Source) :
    (shifted parts u).Allows where
  predicate := fun p hp ch _ he => .inr ⟨.inl ⟨p, ch, hp, he⟩, rfl⟩
  mapping := fun fn hfn v _ he => .inr ⟨.inr ⟨fn, v, hfn, he⟩, rfl⟩
  author := fun fn hfn => absurd hfn (hauthor fn)

theorem call_sim {parts : Parts} (hauthor : ∀ fn, ¬ parts.author fn) (hruns : ¬ parts.mappingRuns)
    {g : Grammar} (hg : g.Uses parts) (u : Source) (c : Cursor) :
    (shifted parts u).Sim (shifted parts u).Same (g.call c) (g.call (c.shift u)) := by
  have hk := shifted_lawful parts u
  have hparts := shifted_allows hauthor u
  refine .bind .ask fun env env' henv => ?_
  have hrun : Runs parts (Grammar.runInner env) := runNested_sim parts env.rules stackLimit
  have hlinks : (shifted parts u).Linked (env.rules.links (Grammar.runInner env) env.allowance)
      (env.rules.links (Grammar.runInner env) env.allowance) :=
    links_sim hk hparts (fun _ _ h => h.symm) hrun (fun h => absurd h hruns) _ _
  obtain ⟨rules, scope, clock⟩ := env'
  obtain ⟨rfl, rfl, rfl, -⟩ := henv
  exact (denote_sim hk hparts hlinks g hg).fn c

end Comparison

/-- The answer of a grammar at a place of a source, moved on, is its answer at
    that place of the source with `u` in front. So is a fault, unless a function
    of the author raised it: that fault stays as it is. -/
theorem Grammar.call_shift (parts : Parts) (hauthor : ∀ fn, ¬ parts.author fn)
    (hruns : ¬ parts.mappingRuns) {g : Grammar} (hg : g.Uses parts) {env : Env}
    (hrules : env.rules.Use parts) {s : State} (hs : s.Use parts) (u : Source) (c : Cursor) :
    (∀ o, ((g.call c).run env s).1 = .ok o →
      ((g.call (c.shift u)).run env s).1 = .ok (o.shift u)) ∧
    ∀ f, ((g.call c).run env s).1 = .error f →
      ((g.call (c.shift u)).run env s).1 = .error (f.shift u.size) ∨
        parts.Raises f ∧ ((g.call (c.shift u)).run env s).1 = .error f := by
  have hsim := Comparison.call_sim hauthor hruns hg u c env env s s
    ⟨rfl, rfl, rfl, hrules⟩ (.refl hs)
  cases hrun : (g.call c).run env s with
  | mk r s₁ =>
    rw [hrun] at hsim
    constructor
    · rintro o rfl
      obtain ⟨_, t, hy, rfl, -⟩ := hsim
      rw [hy]
      rfl
    · rintro f rfl
      obtain ⟨f', t, hy, hf, -⟩ := hsim.resolve_left id
      rw [hy]
      rcases hf with rfl | ⟨hraises, rfl⟩
      · exact .inl rfl
      · exact .inr ⟨hraises, rfl⟩

theorem Grammar.call_shift_nested :
    ((Grammar.call (.ref "nested") (Cursor.shift #['a', 'b'] (.start #['(', 'x', ')']))).run
        { rules := .nested, scope := some { guard := ⟨1, 0⟩ } } {}).1 =
      .error (.depth 1 "nested" 3) := by
  let env : Env := { rules := .nested, scope := some { guard := ⟨1, 0⟩ } }
  have hrules : env.rules.Use .bare := Rules.nested_use _ fun _ => trivial
  have hs : State.Use .bare {} := (State.faithful_init _).use hrules
  have hg : Grammar.Uses .bare (.ref "nested") := trivial
  have h := (Grammar.call_shift .bare (fun _ => id) id hg hrules hs #['a', 'b']
    (.start #['(', 'x', ')'])).2 _ rfl
  rcases h with h | ⟨⟨_, _, hp, _⟩ | ⟨_, _, hp, _⟩, _⟩
  · exact h
  · exact hp.elim
  · exact hp.elim

end Descent
