-- SUMMARY: Whatever an evaluation answers, the grammar yields.
import Descent.Proofs.Invariant

/-! # Soundness of evaluation

An evaluation builds rules, looks at limits and keeps a journal, but none of this
shows in its answers: `Grammar.yields_of_call` says that an outcome of a grammar
at a cursor is one that `Yields` describes, whatever limits are in force and
whatever was built before.

The combinators are sound for every invariant, so an invariant of delegations is
one of whole grammars: `Grammar.sound`. -/

namespace Descent

/-! ## Combinators -/

section Combinators

variable {I : Invariant} {links : Links}

/-- The parser of a grammar answers as the grammar does. -/
def Grammar.Sound (I : Invariant) (links : Links) (g : Grammar) : Prop :=
  ∀ c, Eval.Ensures I (Yields I.rules g c) ((g.denote links).fn c)

theorem Parser.noneMatched_ensures (hI : I.Lawful) (failed : List Failure) :
    Eval.Ensures I (fun o => ∃ h, o = .failure h ∧ Failure.alternatives? failed = some h)
      (Parser.noneMatched failed) := by
  unfold Parser.noneMatched
  cases hh : Failure.alternatives? failed with
  | none => exact .raise hI (.inr nofun)
  | some h => exact .pure ⟨h, rfl, rfl⟩

/-- A failed choice counts for itself as a branch. -/
theorem Yields.alternatives_self {rules : Rules} {p : Grammar} {ps : List Grammar} {c : Cursor}
    {g : Failure} (h : Yields rules (.choice p ps : Grammar) c (.failure g)) :
    Failure.alternatives? [g] = some g := by
  cases h with
  | choice_none _ hh => exact (Failure.alternatives?_append [] hh).trans hh
  | choice_next h =>
    cases h with
    | either_none _ _ hh => exact (Failure.alternatives?_append [] hh).trans hh

/-- The answers of the branches of a choice from one on, after other branches
    have failed. -/
def Yields.Branches (rules : Rules) (failed : List Failure) (p : Grammar) (ps : List Grammar)
    (c : Cursor) : Outcome → Prop
  | .success v n => Yields rules (.choice p ps : Grammar) c (.success v n)
  | .failure h => ∃ g, Yields rules (.choice p ps : Grammar) c (.failure g) ∧
      Failure.alternatives? (failed.reverse ++ [g]) = some h

theorem Parser.tryEach_ensures (hI : I.Lawful) {p : Grammar} {ps : List Grammar}
    (hp : p.Sound I links) (hps : ∀ q ∈ ps, q.Sound I links) (failed : List Failure)
    (c : Cursor) :
    Eval.Ensures I (Yields.Branches I.rules failed p ps c)
      (Parser.tryEach failed ((p :: ps).map (·.denote links)) c) := by
  induction ps generalizing p failed with
  | nil =>
    refine .bind (hp c) fun o ho => ?_
    cases o with
    | success v n => exact .pure (.choice_last ho)
    | failure f =>
      obtain ⟨g, hg⟩ := Failure.exists_alternatives (List.mem_singleton_self f) ho.spliced_ne_nil
      refine (Parser.noneMatched_ensures hI _).mono ?_
      rintro _ ⟨h, rfl, hh⟩
      refine ⟨g, .choice_none ho hg, ?_⟩
      simp [Failure.alternatives?_append _ hg, ← hh]
  | cons q qs ih =>
    refine .bind (hp c) fun o ho => ?_
    cases o with
    | success v n => exact .pure (.choice_next (.either_first ho))
    | failure f =>
      have hq : q.Sound I links := hps q List.mem_cons_self
      have hqs : ∀ r ∈ qs, r.Sound I links := fun r hr => hps r (List.mem_cons_of_mem q hr)
      refine (ih hq hqs (f :: failed)).mono fun o ho' => ?_
      cases o with
      | success v n => exact .choice_next (.either_second ho ho')
      | failure h =>
        obtain ⟨g, hg, hh⟩ := ho'
        have hmem : f ∈ [f, g] := List.mem_cons_self
        obtain ⟨k, hk⟩ := Failure.exists_alternatives hmem ho.spliced_ne_nil
        refine ⟨k, .choice_next (.either_none ho hg hk), ?_⟩
        simp [Failure.alternatives?_append _ hk, ← hh]

/-- The answers of the elements of a sequence from the one at `index` on, after
    the values of other elements. -/
def Yields.Elements (rules : Rules) (index : Nat) (values : List Value) (p : Grammar)
    (ps : List Grammar) (c : Cursor) : Outcome → Prop
  | .success v n => ∃ vs, v = .list (values.reverse ++ vs) ∧
      Yields rules (.seq p ps : Grammar) c (.success (.list vs) n)
  | .failure h => ∃ (f : Failure) (k : Nat), h = f.ofElement (index + k) ∧
      Yields rules (.seq p ps : Grammar) c (.failure (f.ofElement k))

theorem Parser.seqFrom_ensures {p : Grammar} {ps : List Grammar} (hp : p.Sound I links)
    (hps : ∀ q ∈ ps, q.Sound I links) (index : Nat) (values : List Value) (c : Cursor) :
    Eval.Ensures I (Yields.Elements I.rules index values p ps c)
      (Parser.seqFrom index values ((p :: ps).map (·.denote links)) c) := by
  induction ps generalizing p index values c with
  | nil =>
    refine .bind (hp c) fun o ho => ?_
    cases o with
    | failure f => exact .pure ⟨f, 0, rfl, .seq_first ho⟩
    | success v n => exact .pure ⟨[v], by rw [List.reverse_cons], .seq_last ho⟩
  | cons q qs ih =>
    refine .bind (hp c) fun o ho => ?_
    cases o with
    | failure f => exact .pure ⟨f, 0, rfl, .seq_first ho⟩
    | success v n =>
      have hq : q.Sound I links := hps q List.mem_cons_self
      have hqs : ∀ r ∈ qs, r.Sound I links := fun r hr => hps r (List.mem_cons_of_mem q hr)
      refine (ih hq hqs (index + 1) (v :: values) n).mono fun o ho' => ?_
      cases o with
      | success w m =>
        obtain ⟨vs, rfl, hvs⟩ := ho'
        refine ⟨v :: vs, ?_, .seq_next ho hvs⟩
        simp
      | failure h =>
        obtain ⟨f, k, rfl, hk⟩ := ho'
        refine ⟨f, k + 1, ?_, .seq_later ho hk⟩
        simp [Nat.add_assoc, Nat.add_comm 1 k]

/-- How a repetition from a cursor ends: with the values that it adds, which are
    none only if the very first round failed. -/
def Yields.Repeats (rules : Rules) (p : Grammar) (values : List Value) (c : Cursor)
    (r : Repetition) : Prop :=
  ∃ vs, r.values = values.reverse ++ vs ∧
    Yields rules (.many p : Grammar) c (.success (.list vs) r.stop) ∧
    ((vs = [] ∧ ∃ f, r.ended = some f ∧ Yields rules p c (.failure f)) ∨
      (vs ≠ [] ∧ Yields rules (.many1 p : Grammar) c (.success (.list vs) r.stop)))

theorem Parser.repeatFrom_ensures (hI : I.Lawful) {p : Grammar} (hp : p.Sound I links) (c : Cursor)
    (values : List Value) :
    Eval.Ensures I (Yields.Repeats I.rules p values c)
      ((p.denote links).repeatFrom c values) := by
  induction hr : c.remaining using Nat.strongRecOn generalizing c values with
  | ind r ih =>
    subst hr
    rw [Parser.repeatFrom_eq]
    refine .bind (.checkpoint hI _) fun _ _ => .bind (hp c) fun o ho => ?_
    cases o with
    | failure f =>
      exact .pure ⟨[], (List.append_nil _).symm, .many_end ho, .inl ⟨rfl, f, rfl, ho⟩⟩
    | success v n =>
      dsimp only
      split
      · rename_i hlt
        refine (ih n.remaining hlt n (v :: values) rfl).mono ?_
        rintro r ⟨vs, hvs, hm, -⟩
        refine ⟨v :: vs, ?_, .many_more ho hlt hm, ?_⟩
        · simp [hvs]
        · exact .inr ⟨List.cons_ne_nil _ _, .many1_more ho hlt hm⟩
      · rename_i hlt
        refine .bind (.emit hI rfl) fun _ _ => ?_
        refine .pure ⟨[v], List.reverse_cons, .many_still ho hlt, ?_⟩
        exact .inr ⟨List.cons_ne_nil _ _, .many1_still ho hlt⟩

theorem Parser.separatedFrom_ensures (hI : I.Lawful) {p sep : Grammar} (hp : p.Sound I links)
    (hsep : sep.Sound I links) (c : Cursor) (values : List Value) :
    Eval.Ensures I
      (fun o => ∃ vs n, o = .success (.list (values.reverse ++ vs)) n ∧
        Yields I.rules (.rounds p sep) c (.success (.list vs) n))
      ((p.denote links).separatedFrom (sep.denote links) c values) := by
  induction hr : c.remaining using Nat.strongRecOn generalizing c values with
  | ind r ih =>
    subst hr
    rw [Parser.separatedFrom_eq]
    refine .bind (.checkpoint hI _) fun _ _ => .bind (hsep c) fun o ho => ?_
    cases o with
    | failure f => exact .pure ⟨[], c, by rw [List.append_nil], .rounds_end ho⟩
    | success w a =>
      refine .bind (hp a) fun o ho' => ?_
      cases o with
      | failure f => exact .pure ⟨[], c, by rw [List.append_nil], .rounds_back ho ho'⟩
      | success v n =>
        dsimp only
        split
        · rename_i hlt
          refine (ih n.remaining hlt n (v :: values) rfl).mono ?_
          rintro _ ⟨vs, m, rfl, hm⟩
          refine ⟨v :: vs, m, ?_, .rounds_more ho ho' hlt hm⟩
          simp
        · rename_i hlt
          exact .pure ⟨[], c, by rw [List.append_nil], .rounds_still ho ho' hlt⟩

end Combinators

/-! ## Grammars -/

/-- Runs inside an evaluation answer as the grammars that they run do. -/
def RunGrammar.Sound (I : Invariant) (runInner : RunGrammar) : Prop :=
  ∀ o (g : Grammar) text, g.Uses I.parts →
    Eval.Ensures I
      (fun out => ∃ o', out = Outcome.whole o o' ∧ Yields I.rules g (.start (.ofString text)) o')
      (runInner o g text)

/-- Delegations and inner runs answer as the grammars that they reach do. -/
structure Links.Sound (I : Invariant) (links : Links) : Prop where
  ruleName : links.ruleName = I.rules.ruleName
  delegate : ∀ r c, I.parts.rule r →
    Eval.Ensures I (Yields I.rules (.ref r : Grammar) c) (links.delegate r c)
  runInner : I.parts.mappingRuns → links.runInner.Sound I

theorem Reply.toValue_ensures {I : Invariant} (hI : I.Lawful) {reply : Reply}
    (h : ∀ e, reply = .fault e → I.parts.Raises e) (name : String) :
    Eval.Ensures I (reply.toValue name = .ok ·) (Eval.ofExcept (reply.toValue name)) := by
  refine .ofExcept hI fun f hf => ?_
  cases reply with
  | value v => cases hf
  | fault e =>
    cases hf
    exact .inl (h _ rfl)
  | plain p =>
    rw [toValue] at hf
    split at hf <;> cases hf
    exact .inr nofun

theorem Grammar.sound {I : Invariant} (hI : I.Lawful) {links : Links}
    (hauthor : ∀ fn, ¬ I.parts.author fn) (hlinks : links.Sound I) (g : Grammar)
    (hg : g.Uses I.parts) : g.Sound I links := by
  have hname (p : Grammar) : (p.denote links).name = p.name I.rules.ruleName := by
    simp [denote_name, hlinks.ruleName]
  induction g with
  | char ch =>
    intro c
    refine .pure ?_
    dsimp only
    split
    · exact .char_end ‹_›
    · rename_i found hfound
      split
      · rename_i heq
        exact .char (heq ▸ hfound)
      · exact .char_other hfound ‹_›
  | literal s =>
    intro c
    refine .pure ?_
    dsimp only
    split
    · rename_i hread
      split
      · exact .literal hread ‹_›
      · exact .literal_other hread ‹_›
    · rename_i hread
      exact .literal_end (Bool.eq_false_iff.2 hread)
  | satisfy d p =>
    intro c
    cases hc : c.head? with
    | none =>
      simp only [denote, Parser.satisfy, hc]
      exact .pure (.satisfy_end hc)
    | some found =>
      simp only [denote, Parser.satisfy, hc]
      refine .bind (Predicate.apply_ensures hI hg found) fun b hb => ?_
      cases b with
      | true => exact .pure (.satisfy hc hb)
      | false => exact .pure (.satisfy_other hc hb)
  | eof =>
    intro c
    refine .pure ?_
    dsimp only
    split
    · exact .eof_rest ‹_›
    · exact .eof ‹_›
  | spaces =>
    intro c
    exact .pure .spaces
  | either a b ha hb =>
    intro c
    refine .bind (ha hg.1 c) fun o ho => ?_
    cases o with
    | success v n => exact .pure (.either_first ho)
    | failure f =>
      refine .bind (hb hg.2 c) fun o ho' => ?_
      cases o with
      | success v n => exact .pure (.either_second ho ho')
      | failure g =>
        refine (Parser.noneMatched_ensures hI _).mono ?_
        rintro _ ⟨h, rfl, hh⟩
        exact .either_none ho ho' hh
  | choice p ps hp hps =>
    intro c
    have hps' : ∀ q ∈ ps, q.Sound I links := fun q hq => hps q hq (allUse_iff.1 hg.2 q hq)
    simp only [denote, denoteAll_eq_map]
    refine (Parser.tryEach_ensures hI (hp hg.1) hps' [] c).mono fun o ho => ?_
    cases o with
    | success v n => exact ho
    | failure h =>
      obtain ⟨g, hg', hh⟩ := ho
      cases hh.symm.trans hg'.alternatives_self
      exact hg'
  | both a b ha hb =>
    intro c
    refine .bind (ha hg.1 c) fun o ho => ?_
    cases o with
    | failure f => exact .pure (.both_first ho)
    | success v n => exact (hb hg.2 c).mono fun o ho' => .both ho ho'
  | absent p hp =>
    intro c
    refine .bind (hp hg c) fun o ho => ?_
    cases o with
    | failure f => exact .pure (.absent ho)
    | success v n =>
      simp only [hname]
      exact .pure (.absent_found ho)
  | seq p ps hp hps =>
    intro c
    have hps' : ∀ q ∈ ps, q.Sound I links := fun q hq => hps q hq (allUse_iff.1 hg.2 q hq)
    simp only [denote, denoteAll_eq_map]
    refine (Parser.seqFrom_ensures (hp hg.1) hps' 0 [] c).mono fun o ho => ?_
    cases o with
    | success v n =>
      obtain ⟨vs, rfl, hvs⟩ := ho
      exact hvs
    | failure h =>
      obtain ⟨f, k, rfl, hk⟩ := ho
      rw [Nat.zero_add]
      exact hk
  | between o p q ho hp hq =>
    intro c
    refine .bind (ho hg.1 c) fun r h₁ => ?_
    cases r with
    | failure f => exact .pure (.between_opening h₁)
    | success u n₁ =>
      refine .bind (hp hg.2.1 n₁) fun r h₂ => ?_
      cases r with
      | failure f => exact .pure (.between_content h₁ h₂)
      | success v n₂ =>
        refine .bind (hq hg.2.2 n₂) fun r h₃ => ?_
        cases r with
        | failure f => exact .pure (.between_closing h₁ h₂ h₃)
        | success w n₃ => exact .pure (.between h₁ h₂ h₃)
  | many p hp =>
    intro c
    refine .bind (Parser.repeatFrom_ensures hI (hp hg) c []) fun r hr => ?_
    obtain ⟨vs, hvs, hm, -⟩ := hr
    rw [hvs]
    exact .pure hm
  | many1 p hp =>
    intro c
    refine .bind (Parser.repeatFrom_ensures hI (hp hg) c []) fun r hr => ?_
    obtain ⟨vs, hvs, -, ⟨rfl, f, hf, hpf⟩ | ⟨hne, hm⟩⟩ := hr
    · simp only [hvs, hf, hname]
      exact .pure (.many1_none hpf)
    · cases vs with
      | nil => exact absurd rfl hne
      | cons w ws =>
        simp only [hvs]
        exact .pure hm
  | optional p hp =>
    intro c
    refine .bind (hp hg c) fun o ho => ?_
    cases o with
    | success v n => exact .pure (.optional ho)
    | failure f => exact .pure (.optional_none ho)
  | sepBy p sep hp hsep =>
    intro c
    refine .bind (hp hg.1 c) fun o ho => ?_
    cases o with
    | failure f => exact .pure (.sepBy_none ho)
    | success v n =>
      refine (Parser.separatedFrom_ensures hI (hp hg.1) (hsep hg.2) n [v]).mono ?_
      rintro _ ⟨vs, m, rfl, hm⟩
      exact .sepBy ho hm
  | sepBy1 p sep hp hsep =>
    intro c
    refine .bind (hp hg.1 c) fun o ho => ?_
    cases o with
    | failure f => exact .pure (.sepBy1_none ho)
    | success v n =>
      refine (Parser.separatedFrom_ensures hI (hp hg.1) (hsep hg.2) n [v]).mono ?_
      rintro _ ⟨vs, m, rfl, hm⟩
      exact .sepBy1 ho hm
  | token p hp =>
    intro c
    refine .bind (hp hg c) fun o ho => ?_
    cases o with
    | failure f => exact .pure (.token_first ho)
    | success v n => exact .pure (.token ho)
  | map p fn hp =>
    intro c
    refine .bind (hp hg.1 c) fun o ho => ?_
    cases o with
    | failure f => exact .pure (.map_none ho)
    | success v n =>
      have hreply : Eval.Ensures I (· = fn v) (pure (fn v)) := .pure rfl
      refine .bind hreply fun reply hr => ?_
      subst hr
      have hraises : ∀ e, fn v = .fault e → I.parts.Raises e :=
        fun e he => .inr ⟨fn, v, hg.2, he⟩
      refine .bind (Reply.toValue_ensures hI hraises _) fun w hw => .pure (.map ho ?_)
      rw [← hname]
      exact hw
  | mapRun p options inner hp hinner =>
    intro c
    refine .bind (hp hg.2.1 c) fun o ho => ?_
    cases o with
    | failure f => exact .pure (.mapRun_none ho)
    | success v n =>
      have hreply : Eval.Ensures I
          (fun reply => ∃ o, reply = replyOf (o.whole options) ∧
            Yields I.rules inner (.start (.ofString v.text)) o)
          (do
            let outcome ← links.runInner options inner v.text
            return replyOf outcome) := by
        refine .bind (hlinks.runInner hg.1 options inner v.text hg.2.2) ?_
        rintro _ ⟨o, rfl, ho'⟩
        exact .pure ⟨o, rfl, ho'⟩
      refine .bind hreply ?_
      rintro _ ⟨o, rfl, ho'⟩
      have hraises : ∀ e, replyOf (o.whole options) = .fault e → I.parts.Raises e := by
        intro e he
        generalize o.whole options = out at he
        cases out <;> cases he
      refine .bind (Reply.toValue_ensures hI hraises _) fun w hw => .pure (.mapRun ho ho' ?_)
      rw [← hname]
      exact hw
  | named name p hp =>
    intro c
    exact (hp hg c).mono fun o ho => .named ho
  | ref r =>
    intro c
    exact hlinks.delegate r c hg
  | mark label p hp =>
    intro c
    exact .bind (.emit hI rfl) fun _ _ => (hp hg c).mono fun o ho => .mark ho
  | author name fn => exact absurd hg (hauthor fn)

/-! ## Rules -/

section Rules

variable {I : Invariant} {rules : Rules} {parts : Parts} {runInner : RunGrammar}

/-- Runs let the state grow, whatever it was before. -/
def RunGrammar.Grows (rules : Rules) (parts : Parts) (runInner : RunGrammar) : Prop :=
  ∀ s₀, runInner.Sound (.grown rules parts s₀)

theorem Body.build_ensures (hrun : runInner.Grows rules parts) (rule : Rule) (b : Body)
    (hb : b.Uses parts) (s₀ : State) :
    Eval.Ensures (.grown rules parts s₀) (fun r => ∀ g, r = .inl g → b.parser? = some g)
      (b.build runInner rule) := by
  have hI := Invariant.grown_lawful rules parts s₀
  induction b with
  | grammar g =>
    refine .pure ?_
    rintro _ ⟨⟩
    rfl
  | plain p => exact .pure nofun
  | raise f => exact fun _ _ hs => hs.2
  | run used source next ih =>
    exact .bind (hrun s₀ _ _ _ hb.2.1) fun _ _ => ih hb.2.2
  | tryRun used source next ih =>
    have hused : ∀ s₁, Eval.Ensures (.grown rules parts s₁) (fun _ => True)
        (runInner {} (.ref used) source) :=
      fun s₁ => (hrun s₁ {} (.ref used) source hb.2.1).mono fun _ _ => trivial
    refine .bind (.attempt hI hused) fun r _ => ?_
    cases r with
    | ok _ => exact ih hb.2.2
    | error f =>
      dsimp only
      split
      · exact .bind (.emit hI rfl) fun _ _ => ih hb.2.2
      · exact fun _ _ hs => hs.2

theorem breakRule_ensures {α : Type} {Q : α → Prop} (hI : I.Lawful) (rule : Rule)
    (d : Diagnostic) (cause : Option Fault) : Eval.Ensures I Q (breakRule rule d cause) :=
  .bind (.modify hI fun _ hs => State.grown_setCell hs nofun) fun _ _ => .raise hI (.inr nofun)

theorem resolve_ensures (hI : I.Lawful) (hrun : runInner.Grows I.rules I.parts)
    (hrules : I.rules.Use I.parts) {r : Rule} (hr : I.parts.rule r) :
    Eval.Ensures I (fun g => (I.rules r).body.parser? = some g) (resolve runInner r) := by
  have hbuild : Eval.Ensures I (fun g => (I.rules r).body.parser? = some g)
      (buildRule runInner r) := by
    refine .bind (.ask hI) fun env henv => ?_
    simp only [Env.ruleName, henv]
    refine .bind (.modify hI fun _ hs => State.grown_setCell hs nofun) fun _ _ => ?_
    refine .bind (.emit hI rfl) fun _ _ => ?_
    refine .bind (.attempt hI (Body.build_ensures hrun r _ (hrules r hr))) fun built hbuilt => ?_
    obtain f | g | p := built
    · exact .bind (.emit hI rfl) fun _ _ => breakRule_ensures hI _ _ _
    · -- The builder handed back a parser.
      have hg := hbuilt _ rfl g rfl
      refine .bind (.emit hI rfl) fun _ _ => ?_
      refine .bind (.modify hI fun _ hs => State.grown_setCell hs ?_) fun _ _ => .pure hg
      rintro _ ⟨⟩
      exact hg
    · exact .bind (.emit hI rfl) fun _ _ => breakRule_ensures hI _ _ _
  refine .bind (.get hI) fun s hs => ?_
  cases hcell : s.cells r with
  | unbuilt => exact hbuild
  | building => exact .bind (.ask hI) fun _ _ => .raise hI (.inr nofun)
  | built g => exact .pure (hs r g hcell)
  | failed d cause => exact .raise hI (.inr nofun)

end Rules

/-! ## Delegations and runs -/

section Runs

variable {rules : Rules} {parts : Parts} {s₀ : State}

theorem refuse_ensures {α : Type} {Q : α → Prop} (rule : Rule) (position : Nat) :
    Eval.Ensures (.grown rules parts s₀) Q (refuse rule position) := by
  have hI := Invariant.grown_lawful rules parts s₀
  refine .bind (.ask hI) fun env _ => ?_
  cases env.scope with
  | none => exact fun _ _ hs => hs.2
  | some scope => exact .bind (.emit hI rfl) fun _ _ _ _ hs => hs.2

theorem deeper_ensures {α : Type} {Q : α → Prop} {x : Eval α}
    (hx : ∀ s₁, Eval.Ensures (.grown rules parts s₁) Q x) (rule : Rule) (position : Nat) :
    Eval.Ensures (.grown rules parts s₀) Q (deeper rule position x) := by
  refine .bind (.ask (Invariant.grown_lawful _ _ _)) fun env _ => ?_
  cases env.scope with
  | none => exact hx s₀
  | some scope =>
    intro env s hs
    let s₁ := s.emit (.opened rule position scope.guard.enter.depth)
    let inner : Env := { env with scope := some { scope with guard := scope.guard.enter } }
    have h := hx s₁ inner s₁ ⟨hs.1, .refl hs.2.faithful⟩
    simp only [Eval.run_bind, Eval.run_emit, Eval.run_closing, Eval.run_within]
    cases hrun : x.run inner s₁ with
    | mk r s₂ =>
      rw [hrun] at h
      cases r with
      | error f => exact hs.2.trans (State.grown_delegation h)
      | ok a => exact ⟨h.1, hs.1, hs.2.trans (State.grown_delegation h.2.2)⟩

theorem Rules.links_sound (hauthor : ∀ fn, ¬ parts.author fn) (hrules : rules.Use parts)
    {runInner : RunGrammar} (hrun : runInner.Grows rules parts) (allowance : Nat) (s₀ : State) :
    (rules.links runInner allowance).Sound (.grown rules parts s₀) := by
  have hI := Invariant.grown_lawful rules parts
  induction allowance generalizing s₀ with
  | zero =>
    refine ⟨rfl, fun r c hr => ?_, fun _ => hrun s₀⟩
    refine .bind (resolve_ensures (hI s₀) hrun hrules hr) fun g _ => ?_
    exact .bind (.checkpoint (hI s₀) _) fun _ _ => refuse_ensures _ _
  | succ n ih =>
    refine ⟨rfl, fun r c hr => ?_, fun _ => hrun s₀⟩
    refine .bind (resolve_ensures (hI s₀) hrun hrules hr) fun g hg => ?_
    have hg' : g.Uses parts := (hrules r hr).parser hg
    refine .bind (.checkpoint (hI s₀) _) fun _ _ => deeper_ensures (fun s₁ => ?_) _ _
    exact (Grammar.sound (hI s₁) hauthor (ih s₁) g hg' c).mono fun o ho => .ref hg ho

theorem noteLowered_ensures {I : Invariant} (hI : I.Lawful) (maxDepth : Int) :
    Eval.Ensures I (fun _ => True) (noteLowered maxDepth) := by
  unfold noteLowered
  cases hlowered : StackBudget.lowered? {} maxDepth with
  | none => exact .pure trivial
  | some e =>
    have he : e.opens = 0 := by
      unfold StackBudget.lowered? at hlowered
      split at hlowered <;> cases hlowered
      rfl
    exact .emit hI he

theorem openScope_ensures {I : Invariant} (hI : I.Lawful) (maxDepth : Int)
    (timeout : Option Timeout) (watched : Bool) :
    Eval.Ensures I (fun scope => scope.guard = .ofRequested maxDepth)
      (openScope maxDepth timeout watched) := by
  have hseconds : ∀ (t : Timeout) f, t.seconds = .error f → I.parts.Raises f ∨ ¬ f.IsDepth := by
    intro t f hf
    unfold Timeout.seconds at hf
    split at hf
    · split at hf <;> cases hf
      exact .inr nofun
    · cases hf
  refine .bind (noteLowered_ensures hI maxDepth) fun _ _ => ?_
  cases timeout with
  | none => exact .pure rfl
  | some t =>
    refine .bind (.readClock hI) fun _ _ => ?_
    exact .bind (.ofExcept hI (hseconds t)) fun _ _ => .pure rfl

theorem Parser.conclude_ensures {I : Invariant} (hI : I.Lawful) (p : Parser) (o : Outcome) :
    Eval.Ensures I (fun out => out = o) (p.conclude o) := by
  cases o with
  | success v n => exact .pure rfl
  | failure f => exact .bind (.emit hI rfl) fun _ _ => .pure rfl

theorem Parser.run_ensures {p : Parser} {Q : Outcome → Prop} {source : Source}
    (hp : Eval.Ensures (.grown rules parts s₀) Q (p.fn (.start source))) (o : RunOptions) :
    Eval.Ensures (.grown rules parts s₀) (fun out => ∃ o', out = Outcome.whole o o' ∧ Q o')
      (p.run o source) := by
  have hI := Invariant.grown_lawful rules parts s₀
  unfold Parser.run
  split
  · exact fun _ _ hs => hs.2
  · refine .bind (openScope_ensures hI _ _ _) fun scope _ => .bind (.emit hI rfl) fun _ _ => ?_
    refine .bind (.closing rfl (.within _ hp)) fun outcome hout => ?_
    exact (p.conclude_ensures hI _).mono fun out h => ⟨outcome, h, hout⟩

theorem Grammar.runNested_grows (hauthor : ∀ fn, ¬ parts.author fn) (hrules : rules.Use parts)
    (runs : Nat) : (runNested rules.ruleName runs).Grows rules parts := by
  induction runs with
  | zero =>
    intro s₀ o g text _
    exact fun _ _ hs => hs.2
  | succ n ih =>
    intro s₀ o g text hg
    have hI := Invariant.grown_lawful rules parts s₀
    have hlinks := Rules.links_sound hauthor hrules ih o.allowance s₀
    exact Parser.run_ensures (Grammar.sound hI hauthor hlinks g hg _) o

theorem Grammar.parser_sound (hauthor : ∀ fn, ¬ parts.author fn) {env : Env}
    (hrules : env.rules.Use parts) {g : Grammar} (hg : g.Uses parts) (allowance : Nat)
    (c : Cursor) (s₀ : State) :
    Eval.Ensures (.grown env.rules parts s₀) (Yields env.rules g c)
      ((g.parser env allowance).fn c) := by
  have hrun := Grammar.runNested_grows hauthor hrules stackLimit
  have hlinks := Rules.links_sound hauthor hrules hrun allowance s₀
  exact Grammar.sound (Invariant.grown_lawful _ _ _) hauthor hlinks g hg c

end Runs

/-- An outcome of a grammar at a cursor is one that the grammar yields. -/
theorem Grammar.yields_of_call {parts : Parts} (hauthor : ∀ fn, ¬ parts.author fn) {env : Env}
    (hrules : env.rules.Use parts) {g : Grammar} (hg : g.Uses parts) {c : Cursor} {o : Outcome}
    {s s' : State} (hs : s.Faithful env.rules) (h : (g.call c).run env s = (.ok o, s')) :
    Yields env.rules g c o ∧ s.Grown env.rules s' := by
  have hsound := Grammar.parser_sound hauthor hrules hg env.allowance c s env s
    (Invariant.grown_holds hs parts)
  rw [Grammar.run_call] at h
  rw [h] at hsound
  exact ⟨hsound.1, hsound.2.2⟩

/-- An outcome of a run comes from one that the grammar yields at the start of the source. -/
theorem Grammar.yields_of_run {parts : Parts} (hauthor : ∀ fn, ¬ parts.author fn) {env : Env}
    (hrules : env.rules.Use parts) {g : Grammar} (hg : g.Uses parts) {o : RunOptions}
    {source : Source} {out : Outcome} {s s' : State} (hs : s.Faithful env.rules)
    (h : (g.run o source).run env s = (.ok out, s')) :
    ∃ o', out = Outcome.whole o o' ∧ Yields env.rules g (.start source) o' := by
  have hsound := Grammar.parser_sound hauthor hrules hg o.allowance (.start source) s
  have hrun := Parser.run_ensures hsound o env s (Invariant.grown_holds hs parts)
  rw [Grammar.run_run] at h
  rw [h] at hrun
  exact hrun.1

end Descent
