-- SUMMARY: What a grammar answers at a cursor, as an inductive relation without limits, cells or a journal.
import Descent.Proofs.Parts

/-! # Answers of grammars

`Yields rules g c o` says that the grammar `g` answers `o` at the cursor `c`. The
relation knows the rules only by what their builders hand back: it has no cells,
no limits and no faults, so it has nothing to say about an evaluation that ends
in one. Choices and sequences of several parsers are unfolded one parser at a
time.

No rule is given for parsing functions that an author wrote, because nothing is
known about them. -/

namespace Descent

/-! ## The relation -/

/-- What is evaluated at a cursor. -/
inductive Piece
  | whole (g : Grammar)
  /-- What follows the first item of a separated list: separators, each with an
      item after it. -/
  | rounds (p sep : Grammar)

instance : Coe Grammar Piece := ⟨.whole⟩

/-- The answer of a piece at a cursor. -/
inductive Yields (rules : Rules) : Piece → Cursor → Outcome → Prop
  -- Primitive parsers
  | char {ch : Char} {c : Cursor} : c.head? = some ch →
      Yields rules (.char ch : Grammar) c (.success (.atom (String.singleton ch)) (c.advance 1))
  | char_end {ch : Char} {c : Cursor} : c.head? = none →
      Yields rules (.char ch : Grammar) c (.failAt c .endOfInput (.endOfInput (quoteChar ch)))
  | char_other {ch found : Char} {c : Cursor} : c.head? = some found → found ≠ ch →
      Yields rules (.char ch : Grammar) c
        (.failAt c .unexpectedChar (.unexpectedChar (quoteChar ch) (String.singleton found)))
  | literal {s : String} {c : Cursor} : c.canRead s.length = true → c.textAhead s.length = s →
      Yields rules (.literal s : Grammar) c (.success (.atom s) (c.advance s.length))
  | literal_end {s : String} {c : Cursor} : c.canRead s.length = false →
      Yields rules (.literal s : Grammar) c (.failAt c .endOfInput (.endOfInput (quote s)))
  | literal_other {s : String} {c : Cursor} : c.canRead s.length = true →
      c.textAhead s.length ≠ s →
      Yields rules (.literal s : Grammar) c
        (.failAt c .unexpectedLiteral (.unexpectedLiteral s (c.textAhead s.length)))
  | satisfy {d : String} {p : Predicate} {c : Cursor} {found : Char} :
      c.head? = some found → p.test found = .ok true →
      Yields rules (.satisfy d p : Grammar) c
        (.success (.atom (String.singleton found)) (c.advance 1))
  | satisfy_end {d : String} {p : Predicate} {c : Cursor} : c.head? = none →
      Yields rules (.satisfy d p : Grammar) c (.failAt c .endOfInput (.endOfInput d))
  | satisfy_other {d : String} {p : Predicate} {c : Cursor} {found : Char} :
      c.head? = some found → p.test found = .ok false →
      Yields rules (.satisfy d p : Grammar) c
        (.failAt c .unexpectedChar (.unexpectedChar d (String.singleton found)))
  | eof {c : Cursor} : c.head? = none →
      Yields rules (.eof : Grammar) c (.success (.atom "") c)
  | eof_rest {c : Cursor} {found : Char} : c.head? = some found →
      Yields rules (.eof : Grammar) c (Parser.trailing c found)
  | spaces {c : Cursor} :
      Yields rules (.spaces : Grammar) c
        (.success (.atom (c.textUpTo (Parser.skipBlanks c).pos)) (Parser.skipBlanks c))
  -- Choice and lookahead
  | either_first {a b : Grammar} {c n : Cursor} {v : Value} :
      Yields rules a c (.success v n) → Yields rules (.either a b : Grammar) c (.success v n)
  | either_second {a b : Grammar} {c n : Cursor} {f : Failure} {v : Value} :
      Yields rules a c (.failure f) → Yields rules b c (.success v n) →
      Yields rules (.either a b : Grammar) c (.success v n)
  | either_none {a b : Grammar} {c : Cursor} {f g h : Failure} :
      Yields rules a c (.failure f) → Yields rules b c (.failure g) →
      Failure.alternatives? [f, g] = some h →
      Yields rules (.either a b : Grammar) c (.failure h)
  | choice_last {p : Grammar} {c n : Cursor} {v : Value} :
      Yields rules p c (.success v n) → Yields rules (.choice p [] : Grammar) c (.success v n)
  | choice_none {p : Grammar} {c : Cursor} {f h : Failure} :
      Yields rules p c (.failure f) → Failure.alternatives? [f] = some h →
      Yields rules (.choice p [] : Grammar) c (.failure h)
  | choice_next {p q : Grammar} {qs : List Grammar} {c : Cursor} {o : Outcome} :
      Yields rules (.either p (.choice q qs) : Grammar) c o →
      Yields rules (.choice p (q :: qs) : Grammar) c o
  | both_first {a b : Grammar} {c : Cursor} {f : Failure} :
      Yields rules a c (.failure f) → Yields rules (.both a b : Grammar) c (.failure f)
  | both {a b : Grammar} {c n : Cursor} {v : Value} {o : Outcome} :
      Yields rules a c (.success v n) → Yields rules b c o →
      Yields rules (.both a b : Grammar) c o
  | absent {p : Grammar} {c : Cursor} {f : Failure} :
      Yields rules p c (.failure f) →
      Yields rules (.absent p : Grammar) c (.success (.atom "") c)
  | absent_found {p : Grammar} {c n : Cursor} {v : Value} :
      Yields rules p c (.success v n) →
      Yields rules (.absent p : Grammar) c
        (.failAt c .notExpected (.notExpected (p.name rules.ruleName)))
  -- Sequences
  | seq_first {p : Grammar} {ps : List Grammar} {c : Cursor} {f : Failure} :
      Yields rules p c (.failure f) →
      Yields rules (.seq p ps : Grammar) c (.failure (f.ofElement 0))
  | seq_last {p : Grammar} {c n : Cursor} {v : Value} :
      Yields rules p c (.success v n) →
      Yields rules (.seq p [] : Grammar) c (.success (.list [v]) n)
  | seq_next {p q : Grammar} {qs : List Grammar} {c n m : Cursor} {v : Value} {vs : List Value} :
      Yields rules p c (.success v n) →
      Yields rules (.seq q qs : Grammar) n (.success (.list vs) m) →
      Yields rules (.seq p (q :: qs) : Grammar) c (.success (.list (v :: vs)) m)
  | seq_later {p q : Grammar} {qs : List Grammar} {c n : Cursor} {v : Value} {f : Failure}
      {k : Nat} :
      Yields rules p c (.success v n) →
      Yields rules (.seq q qs : Grammar) n (.failure (f.ofElement k)) →
      Yields rules (.seq p (q :: qs) : Grammar) c (.failure (f.ofElement (k + 1)))
  | between_opening {o p q : Grammar} {c : Cursor} {f : Failure} :
      Yields rules o c (.failure f) → Yields rules (.between o p q : Grammar) c (.failure f)
  | between_content {o p q : Grammar} {c n₁ : Cursor} {u : Value} {f : Failure} :
      Yields rules o c (.success u n₁) → Yields rules p n₁ (.failure f) →
      Yields rules (.between o p q : Grammar) c (.failure f)
  | between_closing {o p q : Grammar} {c n₁ n₂ : Cursor} {u v : Value} {f : Failure} :
      Yields rules o c (.success u n₁) → Yields rules p n₁ (.success v n₂) →
      Yields rules q n₂ (.failure f) → Yields rules (.between o p q : Grammar) c (.failure f)
  | between {o p q : Grammar} {c n₁ n₂ n₃ : Cursor} {u v w : Value} :
      Yields rules o c (.success u n₁) → Yields rules p n₁ (.success v n₂) →
      Yields rules q n₂ (.success w n₃) →
      Yields rules (.between o p q : Grammar) c (.success v n₃)
  | token_first {p : Grammar} {c : Cursor} {f : Failure} :
      Yields rules p c (.failure f) → Yields rules (.token p : Grammar) c (.failure f)
  | token {p : Grammar} {c n : Cursor} {v : Value} :
      Yields rules p c (.success v n) →
      Yields rules (.token p : Grammar) c (.success v (Parser.skipBlanks n))
  -- Repetition
  | many_end {p : Grammar} {c : Cursor} {f : Failure} :
      Yields rules p c (.failure f) → Yields rules (.many p : Grammar) c (.success (.list []) c)
  | many_still {p : Grammar} {c n : Cursor} {v : Value} :
      Yields rules p c (.success v n) → ¬ n.remaining < c.remaining →
      Yields rules (.many p : Grammar) c (.success (.list [v]) c)
  | many_more {p : Grammar} {c n m : Cursor} {v : Value} {vs : List Value} :
      Yields rules p c (.success v n) → n.remaining < c.remaining →
      Yields rules (.many p : Grammar) n (.success (.list vs) m) →
      Yields rules (.many p : Grammar) c (.success (.list (v :: vs)) m)
  | many1_none {p : Grammar} {c : Cursor} {f : Failure} :
      Yields rules p c (.failure f) →
      Yields rules (.many1 p : Grammar) c (.failure (f.insufficient (p.name rules.ruleName) c))
  | many1_still {p : Grammar} {c n : Cursor} {v : Value} :
      Yields rules p c (.success v n) → ¬ n.remaining < c.remaining →
      Yields rules (.many1 p : Grammar) c (.success (.list [v]) c)
  | many1_more {p : Grammar} {c n m : Cursor} {v : Value} {vs : List Value} :
      Yields rules p c (.success v n) → n.remaining < c.remaining →
      Yields rules (.many p : Grammar) n (.success (.list vs) m) →
      Yields rules (.many1 p : Grammar) c (.success (.list (v :: vs)) m)
  | optional {p : Grammar} {c n : Cursor} {v : Value} :
      Yields rules p c (.success v n) → Yields rules (.optional p : Grammar) c (.success v n)
  | optional_none {p : Grammar} {c : Cursor} {f : Failure} :
      Yields rules p c (.failure f) →
      Yields rules (.optional p : Grammar) c (.success (.list []) c)
  -- Separated lists
  | rounds_end {p sep : Grammar} {c : Cursor} {f : Failure} :
      Yields rules sep c (.failure f) →
      Yields rules (.rounds p sep) c (.success (.list []) c)
  | rounds_back {p sep : Grammar} {c a : Cursor} {w : Value} {f : Failure} :
      Yields rules sep c (.success w a) → Yields rules p a (.failure f) →
      Yields rules (.rounds p sep) c (.success (.list []) c)
  | rounds_still {p sep : Grammar} {c a n : Cursor} {w v : Value} :
      Yields rules sep c (.success w a) → Yields rules p a (.success v n) →
      ¬ n.remaining < c.remaining →
      Yields rules (.rounds p sep) c (.success (.list []) c)
  | rounds_more {p sep : Grammar} {c a n m : Cursor} {w v : Value} {vs : List Value} :
      Yields rules sep c (.success w a) → Yields rules p a (.success v n) →
      n.remaining < c.remaining → Yields rules (.rounds p sep) n (.success (.list vs) m) →
      Yields rules (.rounds p sep) c (.success (.list (v :: vs)) m)
  | sepBy_none {p sep : Grammar} {c : Cursor} {f : Failure} :
      Yields rules p c (.failure f) →
      Yields rules (.sepBy p sep : Grammar) c (.success (.list []) c)
  | sepBy {p sep : Grammar} {c n m : Cursor} {v : Value} {vs : List Value} :
      Yields rules p c (.success v n) → Yields rules (.rounds p sep) n (.success (.list vs) m) →
      Yields rules (.sepBy p sep : Grammar) c (.success (.list (v :: vs)) m)
  | sepBy1_none {p sep : Grammar} {c : Cursor} {f : Failure} :
      Yields rules p c (.failure f) →
      Yields rules (.sepBy1 p sep : Grammar) c (.failure f)
  | sepBy1 {p sep : Grammar} {c n m : Cursor} {v : Value} {vs : List Value} :
      Yields rules p c (.success v n) → Yields rules (.rounds p sep) n (.success (.list vs) m) →
      Yields rules (.sepBy1 p sep : Grammar) c (.success (.list (v :: vs)) m)
  -- Values, names and rules
  | map_none {p : Grammar} {fn : Value → Reply} {c : Cursor} {f : Failure} :
      Yields rules p c (.failure f) → Yields rules (.map p fn : Grammar) c (.failure f)
  | map {p : Grammar} {fn : Value → Reply} {c n : Cursor} {v w : Value} :
      Yields rules p c (.success v n) → (fn v).toValue (p.name rules.ruleName) = .ok w →
      Yields rules (.map p fn : Grammar) c (.success w n)
  | mapRun_none {p inner : Grammar} {options : RunOptions} {c : Cursor} {f : Failure} :
      Yields rules p c (.failure f) →
      Yields rules (.mapRun p options inner : Grammar) c (.failure f)
  | mapRun {p inner : Grammar} {options : RunOptions} {c n : Cursor} {v w : Value}
      {o : Outcome} :
      Yields rules p c (.success v n) →
      Yields rules inner (.start (.ofString v.text)) o →
      (Grammar.replyOf (o.whole options)).toValue (p.name rules.ruleName) = .ok w →
      Yields rules (.mapRun p options inner : Grammar) c (.success w n)
  | named {name : String} {p : Grammar} {c : Cursor} {o : Outcome} :
      Yields rules p c o → Yields rules (.named name p : Grammar) c o
  | mark {label : String} {p : Grammar} {c : Cursor} {o : Outcome} :
      Yields rules p c o → Yields rules (.mark label p : Grammar) c o
  | ref {r : Rule} {g : Grammar} {c : Cursor} {o : Outcome} :
      (rules r).body.parser? = some g → Yields rules g c o →
      Yields rules (.ref r : Grammar) c o

/-! ## Failed choices -/

namespace Failure

theorem spliced_of_choice {f : Failure} (h : f.kind = .allAlternativesFailed) :
    f.spliced = f.causes := by
  simp only [spliced, h]

theorem spliced_of_kind {f : Failure} (h : f.kind ≠ .allAlternativesFailed) :
    f.spliced = [f] := by
  unfold spliced
  split
  · contradiction
  · rfl

theorem spliced_ne_nil_of_kind {f : Failure} (h : f.kind ≠ .allAlternativesFailed) :
    f.spliced ≠ [] := by
  rw [spliced_of_kind h]
  exact List.cons_ne_nil _ _

/-- A failed choice stands for the failures that its branches contribute. -/
theorem spliced_of_alternatives {bs : List Failure} {h : Failure}
    (hh : alternatives? bs = some h) : h.spliced = bs.flatMap spliced := by
  unfold alternatives? at hh
  split at hh
  · cases hh
  · rename_i f fs hfs
    cases hh
    simp only [spliced, hfs]

theorem alternatives?_congr {as bs : List Failure} (h : as.flatMap spliced = bs.flatMap spliced) :
    alternatives? as = alternatives? bs := by
  unfold alternatives?
  simp [h]

/-- A branch that is a failed choice itself can be replaced by its branches. -/
theorem alternatives?_append (as : List Failure) {bs : List Failure} {h : Failure}
    (hh : alternatives? bs = some h) : alternatives? (as ++ [h]) = alternatives? (as ++ bs) := by
  apply alternatives?_congr
  simp [spliced_of_alternatives hh]

theorem alternatives?_eq_none_iff {bs : List Failure} :
    alternatives? bs = none ↔ bs.flatMap spliced = [] := by
  unfold alternatives?
  split <;> simp_all

/-- One branch that contributes a failure is enough for the choice to have one. -/
theorem exists_alternatives {bs : List Failure} {f : Failure} (hf : f ∈ bs)
    (hs : f.spliced ≠ []) : ∃ h, alternatives? bs = some h := by
  cases hh : alternatives? bs with
  | some h => exact ⟨h, rfl⟩
  | none =>
    have hnil := alternatives?_eq_none_iff.1 hh
    exact absurd (List.flatMap_eq_nil_iff.1 hnil f hf) hs

theorem spliced_alternatives_ne_nil {bs : List Failure} {h : Failure}
    (hh : alternatives? bs = some h) : h.spliced ≠ [] := by
  rw [spliced_of_alternatives hh]
  intro hnil
  rw [alternatives?_eq_none_iff.2 hnil] at hh
  cases hh

end Failure

/-! ## Moving on

Every parser without functions of its author leaves the cursor where it was or
moves it on, and every failure contributes something to the choice that it is a
branch of. -/

namespace Cursor

/-- The cursor `n` is in the same source, here or further on. -/
structure Onward (c n : Cursor) : Prop where
  source : n.source = c.source
  pos : c.pos ≤ n.pos

theorem Onward.refl (c : Cursor) : c.Onward c := ⟨rfl, Nat.le_refl _⟩

theorem Onward.trans {a b c : Cursor} (hab : a.Onward b) (hbc : b.Onward c) : a.Onward c :=
  ⟨hbc.source.trans hab.source, Nat.le_trans hab.pos hbc.pos⟩

theorem onward_advance (c : Cursor) (n : Int) : c.Onward (c.advance n) :=
  ⟨rfl, c.pos_le_advance n⟩

theorem onward_skipBlanks (c : Cursor) : c.Onward (Parser.skipBlanks c) := by
  rw [Parser.skipBlanks_eq]
  exact c.onward_advance _

/-- On the way, less remains exactly when the position has changed. -/
theorem Onward.remaining_lt_iff {c n : Cursor} (h : c.Onward n) :
    n.remaining < c.remaining ↔ n.pos ≠ c.pos := by
  have hn := n.pos_le
  have hle := h.pos
  simp only [remaining, h.source] at hn ⊢
  omega

theorem Onward.eq_of_not_lt {c n : Cursor} (h : c.Onward n)
    (hlt : ¬ n.remaining < c.remaining) : n = c := by
  rw [h.remaining_lt_iff] at hlt
  exact Cursor.ext h.source (Decidable.not_not.1 hlt)

end Cursor

/-- What every answer at a cursor has in common. -/
def Outcome.Sane (c : Cursor) : Outcome → Prop
  | .success _ n => c.Onward n
  | .failure f => f.spliced ≠ []

theorem Yields.sane {rules : Rules} {x : Piece} {c : Cursor} {o : Outcome}
    (h : Yields rules x c o) : o.Sane c := by
  induction h with
  | char | literal | satisfy => exact Cursor.onward_advance ..
  | char_end | char_other | literal_end | literal_other | satisfy_end | satisfy_other =>
    exact Failure.spliced_ne_nil_of_kind nofun
  | eof_rest | absent_found | seq_first | seq_later | many1_none =>
    exact Failure.spliced_ne_nil_of_kind nofun
  | spaces => exact Cursor.onward_skipBlanks _
  | eof | absent | many_end | many_still | optional_none => exact .refl _
  | rounds_end | rounds_back | rounds_still | sepBy_none | many1_still => exact .refl _
  | either_none _ _ hh | choice_none _ hh => exact Failure.spliced_alternatives_ne_nil hh
  | either_first _ ih | either_second _ _ _ ih | choice_last _ ih | choice_next _ ih => exact ih
  | both_first _ ih | both _ _ _ ih | seq_last _ ih | between_opening _ ih => exact ih
  | between_content _ _ _ ih | between_closing _ _ _ _ _ ih | token_first _ ih => exact ih
  | optional _ ih | sepBy1_none _ ih | map_none _ ih | map _ _ ih => exact ih
  | mapRun_none _ ih | mapRun _ _ _ ih | named _ ih | mark _ ih | ref _ _ ih => exact ih
  | seq_next _ _ hp hps | sepBy _ _ hp hps | sepBy1 _ _ hp hps => exact .trans hp hps
  | many_more _ _ _ hp hps | many1_more _ _ _ hp hps => exact .trans hp hps
  | between _ _ _ ho hp hq => exact .trans ho (.trans hp hq)
  | token _ hp => exact .trans hp (Cursor.onward_skipBlanks _)
  | rounds_more _ _ _ _ hs hp hr => exact .trans hs (.trans hp hr)

theorem Yields.onward {rules : Rules} {x : Piece} {c n : Cursor} {v : Value}
    (h : Yields rules x c (.success v n)) : c.Onward n := h.sane

theorem Yields.spliced_ne_nil {rules : Rules} {x : Piece} {c : Cursor} {f : Failure}
    (h : Yields rules x c (.failure f)) : f.spliced ≠ [] := h.sane

end Descent
