-- SUMMARY: What grammars and builders are made of, and induction over grammars.
import Descent.Engine.Run

/-! # The parts of a grammar

Most statements about grammars ask something of the functions that their authors
wrote and of the rules that they refer to. `Grammar.Uses` says that all parts of
a grammar are among those allowed, and `Rules.Use` says the same of the builders
of the rules that may be used. -/

namespace Descent

/-! ## Induction -/

namespace Grammar

/-- Induction over grammars. The branches of a choice and the elements of a
    sequence are smaller grammars too. -/
@[induction_eliminator, elab_as_elim]
theorem induct {motive : Grammar → Prop}
    (char : ∀ c, motive (.char c))
    (literal : ∀ s, motive (.literal s))
    (satisfy : ∀ description p, motive (.satisfy description p))
    (eof : motive .eof)
    (spaces : motive .spaces)
    (either : ∀ a b, motive a → motive b → motive (.either a b))
    (choice : ∀ p ps, motive p → (∀ q ∈ ps, motive q) → motive (.choice p ps))
    (both : ∀ a b, motive a → motive b → motive (.both a b))
    (absent : ∀ p, motive p → motive (.absent p))
    (seq : ∀ p ps, motive p → (∀ q ∈ ps, motive q) → motive (.seq p ps))
    (between : ∀ o p c, motive o → motive p → motive c → motive (.between o p c))
    (many : ∀ p, motive p → motive (.many p))
    (many1 : ∀ p, motive p → motive (.many1 p))
    (optional : ∀ p, motive p → motive (.optional p))
    (sepBy : ∀ p sep, motive p → motive sep → motive (.sepBy p sep))
    (sepBy1 : ∀ p sep, motive p → motive sep → motive (.sepBy1 p sep))
    (token : ∀ p, motive p → motive (.token p))
    (map : ∀ p f, motive p → motive (.map p f))
    (mapRun : ∀ p options inner, motive p → motive inner → motive (.mapRun p options inner))
    (named : ∀ name p, motive p → motive (.named name p))
    (ref : ∀ rule, motive (.ref rule))
    (mark : ∀ label p, motive p → motive (.mark label p))
    (author : ∀ name fn, motive (.author name fn))
    (g : Grammar) : motive g :=
  @Grammar.rec motive (fun gs => ∀ q ∈ gs, motive q)
    char literal satisfy eof spaces either choice both absent seq between many many1 optional
    sepBy sepBy1 token map mapRun named ref mark author
    (fun _ h => absurd h List.not_mem_nil)
    (fun _ _ hp hps _ h => (List.mem_cons.1 h).elim (fun e => e ▸ hp) (hps _))
    g

theorem denoteAll_eq_map (links : Links) (gs : List Grammar) :
    denoteAll links gs = gs.map (·.denote links) := by
  induction gs with
  | nil => rfl
  | cons g gs ih => rw [denoteAll, ih, List.map_cons]

end Grammar

/-! ## Allowed parts -/

/-- What may occur in a grammar and in the builders of its rules. All is allowed
    that is not ruled out. -/
structure Parts where
  predicate : Predicate → Prop := fun _ => True
  mapping : (Value → Reply) → Prop := fun _ => True
  /-- Parsing functions written by the author. -/
  author : (Cursor → Outcome) → Prop := fun _ => True
  rule : Rule → Prop := fun _ => True
  /-- Whether mapping functions may start runs. -/
  mappingRuns : Prop := True
  /-- Whether builders may start runs. -/
  builderRuns : Prop := True

namespace Parts

/-- A predicate or a mapping function raises the fault. -/
def Raises (parts : Parts) (f : Fault) : Prop :=
  (∃ p ch, parts.predicate p ∧ p.test ch = .error f) ∨
    ∃ fn v, parts.mapping fn ∧ fn v = .fault f

/-- The primitives, the combinators and rules, without any function of an author. -/
def bare : Parts where
  predicate := fun _ => False
  mapping := fun _ => False
  author := fun _ => False
  mappingRuns := False
  builderRuns := False

end Parts

namespace Grammar

mutual
/-- All parts of a grammar are allowed. -/
def Uses (parts : Parts) : Grammar → Prop
  | .char _ => True
  | .literal _ => True
  | .satisfy _ p => parts.predicate p
  | .eof => True
  | .spaces => True
  | .either a b => a.Uses parts ∧ b.Uses parts
  | .choice p ps => p.Uses parts ∧ AllUse parts ps
  | .both a b => a.Uses parts ∧ b.Uses parts
  | .absent p => p.Uses parts
  | .seq p ps => p.Uses parts ∧ AllUse parts ps
  | .between o p c => o.Uses parts ∧ p.Uses parts ∧ c.Uses parts
  | .many p => p.Uses parts
  | .many1 p => p.Uses parts
  | .optional p => p.Uses parts
  | .sepBy p sep => p.Uses parts ∧ sep.Uses parts
  | .sepBy1 p sep => p.Uses parts ∧ sep.Uses parts
  | .token p => p.Uses parts
  | .map p f => p.Uses parts ∧ parts.mapping f
  | .mapRun p _ inner => parts.mappingRuns ∧ p.Uses parts ∧ inner.Uses parts
  | .named _ p => p.Uses parts
  | .ref r => parts.rule r
  | .mark _ p => p.Uses parts
  | .author _ fn => parts.author fn

/-- All parts of several grammars are allowed. -/
def AllUse (parts : Parts) : List Grammar → Prop
  | [] => True
  | p :: ps => p.Uses parts ∧ AllUse parts ps
end

theorem allUse_iff {parts : Parts} {gs : List Grammar} :
    AllUse parts gs ↔ ∀ g ∈ gs, g.Uses parts := by
  induction gs with
  | nil => simp [AllUse]
  | cons g gs ih => simp [AllUse, ih]

/-- What holds of all grammars with allowed parts holds along a list of them. -/
theorem forall_of_uses {parts : Parts} {motive : Grammar → Prop} {p : Grammar}
    {ps : List Grammar} (hg : p.Uses parts ∧ AllUse parts ps) (hp : p.Uses parts → motive p)
    (hps : ∀ q ∈ ps, q.Uses parts → motive q) : ∀ q ∈ p :: ps, q.Uses parts ∧ motive q := by
  intro q hq
  rcases List.mem_cons.1 hq with rfl | hq
  · exact ⟨hg.1, hp hg.1⟩
  · have hq' : q.Uses parts := allUse_iff.1 hg.2 q hq
    exact ⟨hq', hps q hq hq'⟩

/-- Where nothing is ruled out, every grammar is allowed. -/
theorem uses_all (g : Grammar) : g.Uses {} := by
  induction g with
  | char | literal | satisfy | eof | spaces | ref | author => trivial
  | choice p ps hp hps | seq p ps hp hps => exact ⟨hp, allUse_iff.2 hps⟩
  | either a b ha hb | both a b ha hb | sepBy a b ha hb | sepBy1 a b ha hb => exact ⟨ha, hb⟩
  | between o p c ho hp hc => exact ⟨ho, hp, hc⟩
  | absent p hp | many p hp | many1 p hp | optional p hp | token p hp => exact hp
  | named _ p hp | mark _ p hp => exact hp
  | map p f hp => exact ⟨hp, trivial⟩
  | mapRun p o inner hp hi => exact ⟨trivial, hp, hi⟩

end Grammar

namespace Body

/-- All parts of the parser that a builder hands back are allowed, and all rules
    that it runs. -/
def Uses (parts : Parts) : Body → Prop
  | .grammar g => g.Uses parts
  | .plain _ => True
  | .raise _ => True
  | .run used _ next => parts.builderRuns ∧ parts.rule used ∧ next.Uses parts
  | .tryRun used _ next => parts.builderRuns ∧ parts.rule used ∧ next.Uses parts

/-- The parser that a builder hands back when nothing stops it. -/
def parser? : Body → Option Grammar
  | .grammar g => some g
  | .plain _ => none
  | .raise _ => none
  | .run _ _ next => next.parser?
  | .tryRun _ _ next => next.parser?

theorem uses_all (b : Body) : b.Uses {} := by
  induction b with
  | grammar g => exact g.uses_all
  | plain | raise => trivial
  | run used source next ih | tryRun used source next ih => exact ⟨trivial, trivial, ih⟩

theorem Uses.parser {parts : Parts} {b : Body} {g : Grammar} (h : b.Uses parts)
    (hg : b.parser? = some g) : g.Uses parts := by
  induction b with
  | grammar g' => cases hg; exact h
  | plain | raise => cases hg
  | run used source next ih | tryRun used source next ih => exact ih h.2.2 hg

end Body

namespace Rules

/-- The names of the rules. -/
def ruleName (rules : Rules) (r : Rule) : String := (rules r).name

/-- The rules that may be used have builders all of whose parts are allowed. -/
def Use (rules : Rules) (parts : Parts) : Prop :=
  ∀ r, parts.rule r → (rules r).body.Uses parts

theorem use_all (rules : Rules) : rules.Use {} := fun r _ => (rules r).body.uses_all

/-- The links of an evaluation that may open so many delegations. -/
def links (rules : Rules) (runInner : RunGrammar) (allowance : Nat) : Links :=
  ⟨rules.ruleName, delegate rules.ruleName runInner allowance, runInner⟩

/-- The letter `x` in any number of parentheses. -/
def nested : Rules := fun _ => {
  name := "nested"
  body := .grammar (.either (.between (.char '(') (.ref "nested") (.char ')')) (.char 'x')) }

theorem nested_use (parts : Parts) (h : ∀ r, parts.rule r) : nested.Use parts :=
  fun _ _ => ⟨⟨trivial, h _, trivial⟩, trivial⟩

end Rules

/-! ## Calls -/

/-- The number of delegations that may still be opened. -/
def Env.allowance (env : Env) : Nat :=
  match env.scope with
  | none => stackLimit
  | some scope => scope.guard.allowance

theorem Grammar.run_call (g : Grammar) (c : Cursor) (env : Env) (s : State) :
    (g.call c).run env s = ((g.parser env env.allowance).fn c).run env s := rfl

theorem Grammar.run_run (g : Grammar) (o : RunOptions) (source : Source) (env : Env) (s : State) :
    (g.run o source).run env s = ((g.parser env o.allowance).run o source).run env s := rfl

/-! ## What was built -/

namespace State

/-- Every rule that was built is what its builder hands back. -/
def Faithful (rules : Rules) (s : State) : Prop :=
  ∀ r g, s.cells r = .built g → (rules r).body.parser? = some g

/-- All parts of what was built are allowed. -/
def Use (parts : Parts) (s : State) : Prop :=
  ∀ r g, parts.rule r → s.cells r = .built g → g.Uses parts

theorem Faithful.use {rules : Rules} {parts : Parts} {s : State} (h : s.Faithful rules)
    (hrules : rules.Use parts) : s.Use parts :=
  fun r g hr hg => (hrules r hr).parser (h r g hg)

theorem faithful_init (rules : Rules) : ({} : State).Faithful rules := by
  intro r g h
  cases h

end State

end Descent
