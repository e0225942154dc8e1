-- SUMMARY: Grammars as parsing expressions: what a grammar matches, as a relation on positions, and that evaluation computes it.
import Descent.Proofs.Completeness
import Descent.Proofs.DepthLimit

/-! # Parsing expressions

`Derives rules src g i r` reads a grammar as a parsing expression over a source:
from position `i` it matches up to `j` when `r` is `some j`, and does not match
when `r` is `none`. The relation speaks of positions only. It knows neither
values nor failures, and no limits.

An evaluation answers what the relation derives, and what the relation derives
it answers unless the depth limit stops it: `Grammar.call_refines_peg`. -/

namespace Descent

/-! ## The relation -/

/-- What a grammar matches from a position of a source. -/
inductive Derives (rules : Rules) (src : Source) : Grammar → Nat → Option Nat → Prop
  -- Primitive parsers
  | char {ch : Char} {i : Nat} : src[i]? = some ch → Derives rules src (.char ch) i (some (i + 1))
  | char_other {ch : Char} {i : Nat} : src[i]? ≠ some ch → Derives rules src (.char ch) i none
  | literal {s : String} {i : Nat} : s.toList <+: src.toList.drop i →
      Derives rules src (.literal s) i (some (i + s.length))
  | literal_other {s : String} {i : Nat} : ¬ s.toList <+: src.toList.drop i →
      Derives rules src (.literal s) i none
  | satisfy {d : String} {p : Predicate} {i : Nat} {ch : Char} :
      src[i]? = some ch → p.test ch = .ok true → Derives rules src (.satisfy d p) i (some (i + 1))
  | satisfy_other {d : String} {p : Predicate} {i : Nat} {ch : Char} :
      src[i]? = some ch → p.test ch = .ok false → Derives rules src (.satisfy d p) i none
  | satisfy_end {d : String} {p : Predicate} {i : Nat} :
      src[i]? = none → Derives rules src (.satisfy d p) i none
  | eof {i : Nat} : src[i]? = none → Derives rules src .eof i (some i)
  | eof_rest {i : Nat} {ch : Char} : src[i]? = some ch → Derives rules src .eof i none
  | spaces {i : Nat} :
      Derives rules src .spaces i (some (i + ((src.toList.drop i).takeWhile Parser.isBlank).length))
  -- Ordered choice and lookahead
  | either_first {a b : Grammar} {i j : Nat} :
      Derives rules src a i (some j) → Derives rules src (.either a b) i (some j)
  | either_second {a b : Grammar} {i : Nat} {r : Option Nat} :
      Derives rules src a i none → Derives rules src b i r → Derives rules src (.either a b) i r
  | choice_last {p : Grammar} {i : Nat} {r : Option Nat} :
      Derives rules src p i r → Derives rules src (.choice p []) i r
  | choice_first {p q : Grammar} {qs : List Grammar} {i j : Nat} :
      Derives rules src p i (some j) → Derives rules src (.choice p (q :: qs)) i (some j)
  | choice_next {p q : Grammar} {qs : List Grammar} {i : Nat} {r : Option Nat} :
      Derives rules src p i none → Derives rules src (.choice q qs) i r →
      Derives rules src (.choice p (q :: qs)) i r
  | both_first {a b : Grammar} {i : Nat} :
      Derives rules src a i none → Derives rules src (.both a b) i none
  | both {a b : Grammar} {i j : Nat} {r : Option Nat} :
      Derives rules src a i (some j) → Derives rules src b i r → Derives rules src (.both a b) i r
  | absent {p : Grammar} {i : Nat} :
      Derives rules src p i none → Derives rules src (.absent p) i (some i)
  | absent_found {p : Grammar} {i j : Nat} :
      Derives rules src p i (some j) → Derives rules src (.absent p) i none
  -- Concatenation
  | seq_first {p : Grammar} {ps : List Grammar} {i : Nat} :
      Derives rules src p i none → Derives rules src (.seq p ps) i none
  | seq_last {p : Grammar} {i j : Nat} :
      Derives rules src p i (some j) → Derives rules src (.seq p []) i (some j)
  | seq_next {p q : Grammar} {qs : List Grammar} {i j : Nat} {r : Option Nat} :
      Derives rules src p i (some j) → Derives rules src (.seq q qs) j r →
      Derives rules src (.seq p (q :: qs)) i r
  | between {o p q : Grammar} {i : Nat} {r : Option Nat} :
      Derives rules src (.seq o [p, q]) i r → Derives rules src (.between o p q) i r
  | token {p : Grammar} {i : Nat} {r : Option Nat} :
      Derives rules src (.seq p [.spaces]) i r → Derives rules src (.token p) i r
  -- Repetition
  | many_end {p : Grammar} {i : Nat} :
      Derives rules src p i none → Derives rules src (.many p) i (some i)
  | many_still {p : Grammar} {i : Nat} :
      Derives rules src p i (some i) → Derives rules src (.many p) i (some i)
  | many_more {p : Grammar} {i j k : Nat} :
      Derives rules src p i (some j) → j ≠ i → Derives rules src (.many p) j (some k) →
      Derives rules src (.many p) i (some k)
  | many1_none {p : Grammar} {i : Nat} :
      Derives rules src p i none → Derives rules src (.many1 p) i none
  | many1_still {p : Grammar} {i : Nat} :
      Derives rules src p i (some i) → Derives rules src (.many1 p) i (some i)
  | many1_more {p : Grammar} {i j k : Nat} :
      Derives rules src p i (some j) → j ≠ i → Derives rules src (.many p) j (some k) →
      Derives rules src (.many1 p) i (some k)
  | optional {p : Grammar} {i j : Nat} :
      Derives rules src p i (some j) → Derives rules src (.optional p) i (some j)
  | optional_none {p : Grammar} {i : Nat} :
      Derives rules src p i none → Derives rules src (.optional p) i (some i)
  -- An item, and then separators with items after them
  | sepBy1_none {p sep : Grammar} {i : Nat} :
      Derives rules src p i none → Derives rules src (.sepBy1 p sep) i none
  | sepBy1 {p sep : Grammar} {i j k : Nat} :
      Derives rules src p i (some j) → Derives rules src (.many (.seq sep [p])) j (some k) →
      Derives rules src (.sepBy1 p sep) i (some k)
  | sepBy_none {p sep : Grammar} {i : Nat} :
      Derives rules src p i none → Derives rules src (.sepBy p sep) i (some i)
  | sepBy {p sep : Grammar} {i j k : Nat} :
      Derives rules src p i (some j) → Derives rules src (.many (.seq sep [p])) j (some k) →
      Derives rules src (.sepBy p sep) i (some k)
  -- Values and names make no difference; a rule is its body
  | map {p : Grammar} {fn : Value → Reply} {i : Nat} {r : Option Nat} :
      Derives rules src p i r → Derives rules src (.map p fn) i r
  | named {name : String} {p : Grammar} {i : Nat} {r : Option Nat} :
      Derives rules src p i r → Derives rules src (.named name p) i r
  | mark {label : String} {p : Grammar} {i : Nat} {r : Option Nat} :
      Derives rules src p i r → Derives rules src (.mark label p) i r
  | ref {rule : Rule} {g : Grammar} {i : Nat} {r : Option Nat} :
      (rules rule).body.parser? = some g → Derives rules src g i r →
      Derives rules src (.ref rule) i r

/-! ## What is read -/

namespace Cursor

variable {c : Cursor}

theorem advance_one_pos {ch : Char} (h : c.head? = some ch) : (c.advance 1).pos = c.pos + 1 := by
  obtain ⟨hlt, -⟩ := Array.getElem?_eq_some_iff.1 h
  simp only [advance_pos]
  omega

theorem advance_length_pos {s : String} (h : c.canRead s.length = true) :
    (c.advance s.length).pos = c.pos + s.length := by
  simp only [canRead, decide_eq_true_eq] at h
  simp only [advance_pos]
  omega

/-- A text can be read exactly when what is left begins with it. -/
theorem reads_iff {s : String} :
    c.canRead s.length = true ∧ c.textAhead s.length = s ↔ s.toList <+: c.rest := by
  rw [canRead_iff, textAhead_eq, List.prefix_iff_eq_take, String.length_toList]
  constructor
  · rintro ⟨-, htext⟩
    rw [← String.toList_ofList (l := c.rest.take s.length), htext]
  · intro htake
    refine ⟨?_, ?_⟩
    · have hlength := congrArg List.length htake
      rw [String.length_toList, List.length_take] at hlength
      omega
    · simp [← htake]

theorem skipBlanks_pos :
    (Parser.skipBlanks c).pos = c.pos + (c.rest.takeWhile Parser.isBlank).length := by
  have hle : (c.rest.takeWhile Parser.isBlank).length ≤ c.remaining := by
    rw [← length_rest]
    exact (List.takeWhile_prefix _).length_le
  have hpos := c.pos_le
  rw [Parser.skipBlanks_eq, advance_pos]
  simp only [remaining] at hle
  omega

end Cursor

/-! ## From answers to matches -/

/-- Where a match ends, if there is one. -/
def Outcome.stop? : Outcome → Option Nat
  | .success _ n => some n.pos
  | .failure _ => none

/-- A piece as a grammar: what follows the first item of a separated list is a
    repetition. -/
def Piece.grammar : Piece → Grammar
  | .whole g => g
  | .rounds p sep => .many (.seq sep [p])

theorem Yields.derives {rules : Rules} {parts : Parts} (hruns : ¬ parts.mappingRuns)
    (hrules : rules.Use parts) {x : Piece} {c : Cursor} {o : Outcome} (h : Yields rules x c o)
    (hx : x.Uses parts) : Derives rules c.source x.grammar c.pos o.stop? := by
  induction h with
  | char hc =>
    rw [Outcome.stop?, Cursor.advance_one_pos hc]
    exact .char hc
  | char_end hc =>
    refine .char_other ?_
    rw [← Cursor.head?, hc]
    nofun
  | char_other hc hne =>
    refine .char_other ?_
    rw [← Cursor.head?, hc]
    exact fun h => hne (Option.some.inj h)
  | literal hread htext =>
    rw [Outcome.stop?, Cursor.advance_length_pos hread]
    exact .literal (Cursor.reads_iff.1 ⟨hread, htext⟩)
  | literal_end hread =>
    refine .literal_other fun hprefix => ?_
    rw [(Cursor.reads_iff.2 hprefix).1] at hread
    cases hread
  | literal_other hread htext =>
    exact .literal_other fun hprefix => htext (Cursor.reads_iff.2 hprefix).2
  | satisfy hc hp =>
    rw [Outcome.stop?, Cursor.advance_one_pos hc]
    exact .satisfy hc hp
  | satisfy_end hc => exact .satisfy_end hc
  | satisfy_other hc hp => exact .satisfy_other hc hp
  | eof hc => exact .eof hc
  | eof_rest hc => exact .eof_rest hc
  | spaces =>
    rw [Outcome.stop?, Cursor.skipBlanks_pos]
    exact .spaces
  | either_first _ ha => exact .either_first (ha hx.1)
  | either_second _ _ ha hb => exact .either_second (ha hx.1) (hb hx.2)
  | either_none _ _ _ ha hb => exact .either_second (ha hx.1) (hb hx.2)
  | choice_last _ hp => exact .choice_last (hp hx.1)
  | choice_none _ _ hp => exact .choice_last (hp hx.1)
  | choice_next _ ih =>
    have ih := ih ⟨hx.1, hx.2⟩
    generalize Outcome.stop? _ = r at ih ⊢
    cases ih with
    | either_first hp => exact .choice_first hp
    | either_second hp hq => exact .choice_next hp hq
  | both_first _ ha => exact .both_first (ha hx.1)
  | both _ _ ha hb => exact .both (ha hx.1) (hb hx.2)
  | absent _ hp => exact .absent (hp hx)
  | absent_found _ hp => exact .absent_found (hp hx)
  | seq_first _ hp => exact .seq_first (hp hx.1)
  | seq_last _ hp => exact .seq_last (hp hx.1)
  | seq_next h _ hp hps | seq_later h _ hp hps =>
    have hps := hps hx.2
    rw [h.onward.source] at hps
    exact .seq_next (hp hx.1) hps
  | between_opening _ h₁ => exact .between (.seq_first (h₁ hx.1))
  | between_content ho _ h₁ h₂ =>
    have h₂ := h₂ hx.2.1
    rw [ho.onward.source] at h₂
    exact .between (.seq_next (h₁ hx.1) (.seq_first h₂))
  | between_closing ho hp _ h₁ h₂ h₃ =>
    have h₂ := h₂ hx.2.1
    have h₃ := h₃ hx.2.2
    rw [hp.onward.source, ho.onward.source] at h₃
    rw [ho.onward.source] at h₂
    exact .between (.seq_next (h₁ hx.1) (.seq_next h₂ (.seq_first h₃)))
  | between ho hp _ h₁ h₂ h₃ =>
    have h₂ := h₂ hx.2.1
    have h₃ := h₃ hx.2.2
    rw [hp.onward.source, ho.onward.source] at h₃
    rw [ho.onward.source] at h₂
    exact .between (.seq_next (h₁ hx.1) (.seq_next h₂ (.seq_last h₃)))
  | token_first _ hp => exact .token (.seq_first (hp hx))
  | @token p c n v h hp =>
    have hspaces : Derives rules n.source .spaces n.pos (some (Parser.skipBlanks n).pos) := by
      rw [Cursor.skipBlanks_pos]
      exact .spaces
    rw [h.onward.source] at hspaces
    exact .token (.seq_next (hp hx) (.seq_last hspaces))
  | many_end _ hp => exact .many_end (hp hx)
  | many_still h hlt hp =>
    have hp := hp hx
    rw [h.onward.eq_of_not_lt hlt] at hp
    exact .many_still hp
  | many_more h hlt _ hp hm =>
    have hm := hm hx
    rw [h.onward.source] at hm
    exact .many_more (hp hx) (h.onward.remaining_lt_iff.1 hlt) hm
  | many1_none _ hp => exact .many1_none (hp hx)
  | many1_still h hlt hp =>
    have hp := hp hx
    rw [h.onward.eq_of_not_lt hlt] at hp
    exact .many1_still hp
  | many1_more h hlt _ hp hm =>
    have hm := hm hx
    rw [h.onward.source] at hm
    exact .many1_more (hp hx) (h.onward.remaining_lt_iff.1 hlt) hm
  | optional _ hp => exact .optional (hp hx)
  | optional_none _ hp => exact .optional_none (hp hx)
  | rounds_end _ hsep => exact .many_end (.seq_first (hsep hx.2))
  | rounds_back hs _ hsep hp =>
    have hp := hp hx.1
    rw [hs.onward.source] at hp
    exact .many_end (.seq_next (hsep hx.2) (.seq_first hp))
  | rounds_still hs h hlt hsep hp =>
    have hp := hp hx.1
    rw [hs.onward.source, (hs.onward.trans h.onward).eq_of_not_lt hlt] at hp
    exact .many_still (.seq_next (hsep hx.2) (.seq_last hp))
  | rounds_more hs h hlt _ hsep hp hr =>
    have hmove := hs.onward.trans h.onward
    have hp := hp hx.1
    have hr := hr hx
    rw [hs.onward.source] at hp
    rw [hmove.source] at hr
    exact .many_more (.seq_next (hsep hx.2) (.seq_last hp)) (hmove.remaining_lt_iff.1 hlt) hr
  | sepBy_none _ hp => exact .sepBy_none (hp hx.1)
  | sepBy h _ hp hr =>
    have hr := hr hx
    rw [h.onward.source] at hr
    exact .sepBy (hp hx.1) hr
  | sepBy1_none _ hp => exact .sepBy1_none (hp hx.1)
  | sepBy1 h _ hp hr =>
    have hr := hr hx
    rw [h.onward.source] at hr
    exact .sepBy1 (hp hx.1) hr
  | map_none _ hp => exact .map (hp hx.1)
  | map _ _ hp => exact .map (hp hx.1)
  | mapRun_none | mapRun => exact absurd hx.1 hruns
  | named _ hp => exact .named (hp hx)
  | mark _ hp => exact .mark (hp hx)
  | ref hg _ ih => exact .ref hg (ih ((hrules _ hx).parser hg))

/-! ## From matches to answers -/

section Answers

variable {rules : Rules} {c n : Cursor} {v : Value}

theorem Yields.consumes_iff {p : Grammar} (h : Yields rules p c (.success v n)) {i j : Nat}
    (hc : c.pos = i) (hn : n.pos = j) : n.remaining < c.remaining ↔ j ≠ i := by
  subst hc hn
  exact h.onward.remaining_lt_iff

theorem Yields.seq_list {p : Grammar} {ps : List Grammar}
    (h : Yields rules (.seq p ps : Grammar) c (.success v n)) : ∃ vs, v = .list vs := by
  cases h with
  | seq_last | seq_next => exact ⟨_, rfl⟩

theorem Yields.seq_failure {p : Grammar} {ps : List Grammar} {h : Failure}
    (hy : Yields rules (.seq p ps : Grammar) c (.failure h)) :
    ∃ (f : Failure) (k : Nat), h = f.ofElement k := by
  cases hy with
  | seq_first | seq_later => exact ⟨_, _, rfl⟩

theorem Yields.many_list {p : Grammar} (h : Yields rules (.many p : Grammar) c (.success v n)) :
    ∃ vs, v = .list vs := by
  cases h with
  | many_end | many_still | many_more => exact ⟨_, rfl⟩

/-- A repetition of a separator and an item goes on like the rounds of a separated
    list. -/
theorem Yields.rounds_of_many {p sep : Grammar}
    (h : Yields rules (.many (.seq sep [p]) : Grammar) c (.success v n)) :
    ∃ vs, Yields rules (.rounds p sep) c (.success (.list vs) n) := by
  induction hr : c.remaining using Nat.strongRecOn generalizing c v with
  | ind r ih =>
    subst hr
    cases h with
    | many_end hf =>
      cases hf with
      | seq_first hs => exact ⟨[], .rounds_end hs⟩
      | seq_later hs hp =>
        generalize hk : Failure.ofElement _ _ = h at hp
        cases hp with
        | seq_first hp => exact ⟨[], .rounds_back hs hp⟩
    | many_still hm hlt =>
      cases hm with
      | seq_next hs hp =>
        cases hp with
        | seq_last hp => exact ⟨[], .rounds_still hs hp hlt⟩
    | many_more hm hlt hrest =>
      cases hm with
      | seq_next hs hp =>
        cases hp with
        | seq_last hp =>
          obtain ⟨vs, hvs⟩ := ih _ hlt hrest rfl
          exact ⟨_ :: vs, .rounds_more hs hp hlt hvs⟩

/-- The grammar matches from a cursor as given. -/
def Grammar.Matches (rules : Rules) (g : Grammar) (c : Cursor) : Option Nat → Prop
  | some j => ∃ v n, Yields rules g c (.success v n) ∧ n.pos = j
  | none => ∃ f, Yields rules g c (.failure f)

theorem Grammar.Matches.mono {g g' : Grammar} {r : Option Nat} (h : g.Matches rules c r)
    (hmono : ∀ o, Yields rules g c o → Yields rules g' c o) : g'.Matches rules c r := by
  cases r with
  | some j =>
    obtain ⟨v, n, h, hn⟩ := h
    exact ⟨v, n, hmono _ h, hn⟩
  | none =>
    obtain ⟨f, h⟩ := h
    exact ⟨f, hmono _ h⟩

theorem Grammar.between_matches {o p q : Grammar} {r : Option Nat}
    (h : (Grammar.seq o [p, q]).Matches rules c r) : (Grammar.between o p q).Matches rules c r := by
  cases r with
  | some j =>
    obtain ⟨v, n, h, hn⟩ := h
    cases h with
    | seq_next ho h =>
      cases h with
      | seq_next hp h =>
        cases h with
        | seq_last hq => exact ⟨_, n, .between ho hp hq, hn⟩
  | none =>
    obtain ⟨f, h⟩ := h
    cases h with
    | seq_first ho => exact ⟨_, .between_opening ho⟩
    | seq_later ho h =>
      generalize Failure.ofElement _ _ = g at h
      cases h with
      | seq_first hp => exact ⟨_, .between_content ho hp⟩
      | seq_later hp h =>
        generalize Failure.ofElement _ _ = g at h
        cases h with
        | seq_first hq => exact ⟨_, .between_closing ho hp hq⟩

theorem Grammar.token_matches {p : Grammar} {r : Option Nat}
    (h : (Grammar.seq p [.spaces]).Matches rules c r) : (Grammar.token p).Matches rules c r := by
  cases r with
  | some j =>
    obtain ⟨v, n, h, hn⟩ := h
    cases h with
    | seq_next hp h =>
      cases h with
      | seq_last h =>
        cases h with
        | spaces => exact ⟨_, _, .token hp, hn⟩
  | none =>
    obtain ⟨f, h⟩ := h
    cases h with
    | seq_first hp => exact ⟨_, .token_first hp⟩
    | seq_later hp h =>
      generalize Failure.ofElement _ _ = g at h
      cases h with
      | seq_first h => cases h

end Answers

theorem Derives.matches {rules : Rules} {parts : Parts}
    (hmapping : ∀ fn, parts.mapping fn → ∀ name v, ∃ w, (fn v).toValue name = .ok w)
    (hrules : rules.Use parts) {src : Source} {g : Grammar} {i : Nat} {r : Option Nat}
    (h : Derives rules src g i r) (hg : g.Uses parts) {c : Cursor} (hsrc : c.source = src)
    (hpos : c.pos = i) : g.Matches rules c r := by
  induction h generalizing c with
  | char hc =>
    subst hsrc hpos
    exact ⟨_, _, .char hc, Cursor.advance_one_pos hc⟩
  | char_other hc =>
    subst hsrc hpos
    cases hhead : c.head? with
    | none => exact ⟨_, .char_end hhead⟩
    | some found =>
      refine ⟨_, .char_other hhead ?_⟩
      rintro rfl
      exact hc hhead
  | literal hprefix =>
    subst hsrc hpos
    obtain ⟨hread, htext⟩ := Cursor.reads_iff.2 hprefix
    exact ⟨_, _, .literal hread htext, Cursor.advance_length_pos hread⟩
  | @literal_other s _ hprefix =>
    subst hsrc hpos
    cases hread : c.canRead s.length with
    | false => exact ⟨_, .literal_end hread⟩
    | true =>
      exact ⟨_, .literal_other hread fun htext => hprefix (Cursor.reads_iff.1 ⟨hread, htext⟩)⟩
  | satisfy hc hp =>
    subst hsrc hpos
    exact ⟨_, _, .satisfy hc hp, Cursor.advance_one_pos hc⟩
  | satisfy_other hc hp =>
    subst hsrc hpos
    exact ⟨_, .satisfy_other hc hp⟩
  | satisfy_end hc =>
    subst hsrc hpos
    exact ⟨_, .satisfy_end hc⟩
  | eof hc =>
    subst hsrc hpos
    exact ⟨_, c, .eof hc, rfl⟩
  | eof_rest hc =>
    subst hsrc hpos
    exact ⟨_, .eof_rest hc⟩
  | spaces =>
    subst hsrc hpos
    exact ⟨_, _, .spaces, Cursor.skipBlanks_pos⟩
  | either_first _ ha =>
    obtain ⟨v, n, ha, hn⟩ := ha hg.1 hsrc hpos
    exact ⟨v, n, .either_first ha, hn⟩
  | @either_second a b i r _ _ ha hb =>
    obtain ⟨f, ha⟩ := ha hg.1 hsrc hpos
    have hb := hb hg.2 hsrc hpos
    cases r with
    | some j =>
      obtain ⟨v, n, hb, hn⟩ := hb
      exact ⟨v, n, .either_second ha hb, hn⟩
    | none =>
      obtain ⟨g, hb⟩ := hb
      have hmem : f ∈ [f, g] := List.mem_cons_self
      obtain ⟨h, hh⟩ := Failure.exists_alternatives hmem ha.spliced_ne_nil
      exact ⟨h, .either_none ha hb hh⟩
  | @choice_last p i r _ hp =>
    have hp := hp hg.1 hsrc hpos
    cases r with
    | some j =>
      obtain ⟨v, n, hp, hn⟩ := hp
      exact ⟨v, n, .choice_last hp, hn⟩
    | none =>
      obtain ⟨f, hp⟩ := hp
      obtain ⟨h, hh⟩ := Failure.exists_alternatives (List.mem_singleton_self f) hp.spliced_ne_nil
      exact ⟨h, .choice_none hp hh⟩
  | choice_first _ hp =>
    obtain ⟨v, n, hp, hn⟩ := hp hg.1 hsrc hpos
    exact ⟨v, n, .choice_next (.either_first hp), hn⟩
  | @choice_next p q qs i r _ _ hp hq =>
    obtain ⟨f, hp⟩ := hp hg.1 hsrc hpos
    have hq := hq hg.2 hsrc hpos
    cases r with
    | some j =>
      obtain ⟨v, n, hq, hn⟩ := hq
      exact ⟨v, n, .choice_next (.either_second hp hq), hn⟩
    | none =>
      obtain ⟨g, hq⟩ := hq
      have hmem : f ∈ [f, g] := List.mem_cons_self
      obtain ⟨h, hh⟩ := Failure.exists_alternatives hmem hp.spliced_ne_nil
      exact ⟨h, .choice_next (.either_none hp hq hh)⟩
  | both_first _ ha =>
    obtain ⟨f, ha⟩ := ha hg.1 hsrc hpos
    exact ⟨f, .both_first ha⟩
  | @both a b i j r _ _ ha hb =>
    obtain ⟨v, n, ha, -⟩ := ha hg.1 hsrc hpos
    have hb := hb hg.2 hsrc hpos
    cases r with
    | some j =>
      obtain ⟨w, m, hb, hm⟩ := hb
      exact ⟨w, m, .both ha hb, hm⟩
    | none =>
      obtain ⟨f, hb⟩ := hb
      exact ⟨f, .both ha hb⟩
  | absent _ hp =>
    obtain ⟨f, hp⟩ := hp hg hsrc hpos
    exact ⟨_, c, .absent hp, hpos⟩
  | absent_found _ hp =>
    obtain ⟨v, n, hp, -⟩ := hp hg hsrc hpos
    exact ⟨_, .absent_found hp⟩
  | seq_first _ hp =>
    obtain ⟨f, hp⟩ := hp hg.1 hsrc hpos
    exact ⟨_, .seq_first hp⟩
  | seq_last _ hp =>
    obtain ⟨v, n, hp, hn⟩ := hp hg.1 hsrc hpos
    exact ⟨_, n, .seq_last hp, hn⟩
  | @seq_next p q qs i j r _ _ hp hps =>
    obtain ⟨v, n, hp, hn⟩ := hp hg.1 hsrc hpos
    have hps := hps hg.2 (hp.onward.source.trans hsrc) hn
    cases r with
    | some k =>
      obtain ⟨w, m, hps, hm⟩ := hps
      obtain ⟨vs, rfl⟩ := hps.seq_list
      exact ⟨_, m, .seq_next hp hps, hm⟩
    | none =>
      obtain ⟨h, hps⟩ := hps
      obtain ⟨f, k, rfl⟩ := hps.seq_failure
      exact ⟨_, .seq_later hp hps⟩
  | between _ h => exact Grammar.between_matches (h ⟨hg.1, hg.2.1, hg.2.2, trivial⟩ hsrc hpos)
  | token _ h => exact Grammar.token_matches (h ⟨hg, trivial, trivial⟩ hsrc hpos)
  | many_end _ hp =>
    obtain ⟨f, hp⟩ := hp hg hsrc hpos
    exact ⟨_, c, .many_end hp, hpos⟩
  | many_still _ hp =>
    obtain ⟨v, n, hp, hn⟩ := hp hg hsrc hpos
    have hlt : ¬ n.remaining < c.remaining := fun h => (hp.consumes_iff hpos hn).1 h rfl
    exact ⟨_, c, .many_still hp hlt, hpos⟩
  | many_more _ hne _ hp hm =>
    obtain ⟨v, n, hp, hn⟩ := hp hg hsrc hpos
    obtain ⟨w, m, hm, hstop⟩ := hm hg (hp.onward.source.trans hsrc) hn
    obtain ⟨vs, rfl⟩ := hm.many_list
    have hlt : n.remaining < c.remaining := (hp.consumes_iff hpos hn).2 hne
    exact ⟨_, m, .many_more hp hlt hm, hstop⟩
  | many1_none _ hp =>
    obtain ⟨f, hp⟩ := hp hg hsrc hpos
    exact ⟨_, .many1_none hp⟩
  | many1_still _ hp =>
    obtain ⟨v, n, hp, hn⟩ := hp hg hsrc hpos
    have hlt : ¬ n.remaining < c.remaining := fun h => (hp.consumes_iff hpos hn).1 h rfl
    exact ⟨_, c, .many1_still hp hlt, hpos⟩
  | many1_more _ hne _ hp hm =>
    obtain ⟨v, n, hp, hn⟩ := hp hg hsrc hpos
    obtain ⟨w, m, hm, hstop⟩ := hm hg (hp.onward.source.trans hsrc) hn
    obtain ⟨vs, rfl⟩ := hm.many_list
    have hlt : n.remaining < c.remaining := (hp.consumes_iff hpos hn).2 hne
    exact ⟨_, m, .many1_more hp hlt hm, hstop⟩
  | optional _ hp =>
    obtain ⟨v, n, hp, hn⟩ := hp hg hsrc hpos
    exact ⟨v, n, .optional hp, hn⟩
  | optional_none _ hp =>
    obtain ⟨f, hp⟩ := hp hg hsrc hpos
    exact ⟨_, c, .optional_none hp, hpos⟩
  | sepBy1_none _ hp =>
    obtain ⟨f, hp⟩ := hp hg.1 hsrc hpos
    exact ⟨f, .sepBy1_none hp⟩
  | sepBy1 _ _ hp hm =>
    obtain ⟨v, n, hp, hn⟩ := hp hg.1 hsrc hpos
    obtain ⟨w, m, hm, hstop⟩ := hm ⟨hg.2, hg.1, trivial⟩ (hp.onward.source.trans hsrc) hn
    obtain ⟨vs, hr⟩ := hm.rounds_of_many
    exact ⟨_, m, .sepBy1 hp hr, hstop⟩
  | sepBy_none _ hp =>
    obtain ⟨f, hp⟩ := hp hg.1 hsrc hpos
    exact ⟨_, c, .sepBy_none hp, hpos⟩
  | sepBy _ _ hp hm =>
    obtain ⟨v, n, hp, hn⟩ := hp hg.1 hsrc hpos
    obtain ⟨w, m, hm, hstop⟩ := hm ⟨hg.2, hg.1, trivial⟩ (hp.onward.source.trans hsrc) hn
    obtain ⟨vs, hr⟩ := hm.rounds_of_many
    exact ⟨_, m, .sepBy hp hr, hstop⟩
  | @map p fn i r _ hp =>
    have hp := hp hg.1 hsrc hpos
    cases r with
    | some j =>
      obtain ⟨v, n, hp, hn⟩ := hp
      obtain ⟨w, hw⟩ := hmapping fn hg.2 (p.name rules.ruleName) v
      exact ⟨w, n, .map hp hw, hn⟩
    | none =>
      obtain ⟨f, hp⟩ := hp
      exact ⟨f, .map_none hp⟩
  | named _ hp => exact (hp hg hsrc hpos).mono fun _ => .named
  | mark _ hp => exact (hp hg hsrc hpos).mono fun _ => .mark
  | @ref rule g i r hbody _ hp =>
    exact (hp ((hrules rule hg).parser hbody) hsrc hpos).mono fun _ => .ref hbody

/-! ## Evaluation -/

/-- Pure parts: predicates that have no effects, and mapping functions that
    always return a value and start no runs. The builders of the used rules only
    construct parsers, and no parsing function was written by the author. -/
def Parts.pure (used : Rule → Prop) : Parts where
  predicate := fun p => p.trigger = none
  mapping := fun fn => ∀ name v, ∃ w, (fn v).toValue name = .ok w
  author := fun _ => False
  rule := used
  mappingRuns := False
  builderRuns := False

section Evaluation

variable {rules : Rules} {used : Rule → Prop} {g : Grammar} {c : Cursor} {o : Outcome}

theorem Yields.eventually_answers {parts : Parts}
    (htrigger : ∀ p, parts.predicate p → p.trigger = none) (hruns : ¬ parts.mappingRuns)
    (hrules : rules.Construct parts) (hg : g.Uses parts) (h : Yields rules g c o) :
    ∃ N, ∀ env s, Unhindered rules parts env s → ∀ n, N ≤ n →
      (((g.parser env n).fn c).run env s).1 = .ok o := by
  have hreturns := h.eventually_returns htrigger hruns hrules
    (Grammar.runNested rules.ruleName stackLimit) hg
  obtain ⟨N, hN⟩ := Filter.eventually_atTop.1 hreturns
  refine ⟨N, fun env s hs n hn => ?_⟩
  obtain ⟨_, s', hrun, rfl, -⟩ := hN n hn env s hs
  have hrules : env.rules = rules := hs.envRules
  subst hrules
  exact congrArg Prod.fst hrun

/-- With fewer delegations the depth limit may stop the evaluation, but it does
    not answer anything else. -/
theorem Yields.answers_or_depth {parts : Parts}
    (htrigger : ∀ p, parts.predicate p → p.trigger = none) (hruns : ¬ parts.mappingRuns)
    (hrules : rules.Construct parts) (hg : g.Uses parts) (h : Yields rules g c o) {env : Env}
    {s : State} (hs : Unhindered rules parts env s) :
    ((g.call c).run env s).1 = .ok o ∨ ∃ f, ((g.call c).run env s).1 = .error f ∧ f.IsDepth := by
  obtain ⟨N, hN⟩ := h.eventually_answers htrigger hruns hrules hg
  have hdeep := hN env s hs _ (Nat.le_max_right env.allowance N)
  obtain ⟨scope, hscope, -⟩ := hs.scope
  have hsim := Comparison.parser_deepening g env (Nat.le_max_left env.allowance N) c env env s s
    ⟨rfl, rfl, ⟨scope, scope, hscope, hscope, rfl, rfl⟩, env.rules.use_all⟩
    (.refl fun _ g _ _ => g.uses_all)
  rw [Grammar.run_call]
  cases hrun : ((g.parser env env.allowance).fn c).run env s with
  | mk r s₁ =>
    rw [hrun] at hsim
    cases r with
    | ok o' =>
      obtain ⟨_, t, hy, rfl, -⟩ := hsim
      rw [hy] at hdeep
      exact .inl hdeep
    | error f =>
      rcases hsim with hdepth | ⟨f', t, hy, -⟩
      · exact .inr ⟨f, rfl, hdepth⟩
      · rw [hy] at hdeep
        cases hdeep

theorem Yields.eventually_called (hrules : rules.Construct (.pure used)) (hg : g.Uses (.pure used))
    (h : Yields rules g c o) :
    ∃ N, ∀ env s, Unhindered rules (.pure used) env s → ∀ n, N ≤ n →
      (((g.parser env n).fn c).run env s).1 = .ok o :=
  h.eventually_answers (fun _ hp => hp) id hrules hg

theorem Yields.called_or_depth (hrules : rules.Construct (.pure used)) (hg : g.Uses (.pure used))
    (h : Yields rules g c o) {env : Env} {s : State} (hs : Unhindered rules (.pure used) env s) :
    ((g.call c).run env s).1 = .ok o ∨ ∃ f, ((g.call c).run env s).1 = .error f ∧ f.IsDepth :=
  h.answers_or_depth (fun _ hp => hp) id hrules hg hs

end Evaluation

/-- Evaluation of a grammar computes what the grammar matches as a parsing
    expression. What it answers the relation derives; and what the relation
    derives it answers inside a run, unless the depth limit stops it, which does
    not happen from some limit on. -/
theorem Grammar.call_refines_peg {rules : Rules} {used : Rule → Prop}
    (hrules : rules.Construct (.pure used)) {g : Grammar} (hg : g.Uses (.pure used))
    (c : Cursor) :
    (∀ env s o, env.rules = rules → s.Faithful rules → ((g.call c).run env s).1 = .ok o →
      Derives rules c.source g c.pos o.stop?) ∧
    ∀ r, Derives rules c.source g c.pos r →
      (∀ env s, Unhindered rules (.pure used) env s →
        (∃ o, ((g.call c).run env s).1 = .ok o ∧ o.stop? = r) ∨
          ∃ f, ((g.call c).run env s).1 = .error f ∧ f.IsDepth) ∧
      ∃ N, ∀ env s, Unhindered rules (.pure used) env s → N ≤ env.allowance →
        ∃ o, ((g.call c).run env s).1 = .ok o ∧ o.stop? = r := by
  constructor
  · rintro env s o rfl hs ho
    cases hrun : (g.call c).run env s with
    | mk r s' =>
      rw [hrun] at ho
      cases ho
      have hyields := (Grammar.yields_of_call (fun _ => id) hrules.use hg hs hrun).1
      exact hyields.derives id hrules.use hg
  · intro r hr
    have hyields : ∃ o, Yields rules g c o ∧ o.stop? = r := by
      have hmatches := hr.matches (fun _ h => h) hrules.use hg rfl rfl
      cases r with
      | some j =>
        obtain ⟨v, n, h, hn⟩ := hmatches
        exact ⟨_, h, congrArg some hn⟩
      | none =>
        obtain ⟨f, h⟩ := hmatches
        exact ⟨_, h, rfl⟩
    obtain ⟨o, ho, hstop⟩ := hyields
    constructor
    · intro env s hs
      refine (ho.called_or_depth hrules hg hs).imp_left fun h => ?_
      exact ⟨o, h, hstop⟩
    · obtain ⟨N, hN⟩ := ho.eventually_called hrules hg
      refine ⟨N, fun env s hs hn => ⟨o, ?_, hstop⟩⟩
      rw [Grammar.run_call]
      exact hN env s hs _ hn

theorem Grammar.call_refines_peg_nested :
    Derives .nested #['(', 'x', ')'] (.ref "nested") 0 (some 3) ∧
    ∃ N, ∀ limit : Nat, N ≤ limit →
      ∃ o, ((Grammar.call (.ref "nested") (.start #['(', 'x', ')'])).run
        { rules := .nested, scope := some { guard := ⟨limit, 0⟩ } } {}).1 = .ok o ∧
          o.stop? = some 3 := by
  have hrules : Rules.nested.Construct (.pure fun _ => True) :=
    fun r hr => ⟨_, rfl, Rules.nested_use _ (fun _ => trivial) r hr⟩
  have hg : Grammar.Uses (.pure fun _ => True) (.ref "nested") := trivial
  obtain ⟨hsound, hcomplete⟩ := Grammar.call_refines_peg hrules hg (.start #['(', 'x', ')'])
  have hderives : Derives .nested #['(', 'x', ')'] (.ref "nested") 0 (some 3) :=
    hsound { rules := .nested } {} _ rfl (State.faithful_init _) rfl
  refine ⟨hderives, ?_⟩
  obtain ⟨N, hN⟩ := (hcomplete _ hderives).2
  refine ⟨N, fun limit hlimit => hN _ _ ⟨rfl, ⟨_, rfl, rfl, rfl⟩, fun _ _ _ _ => .inl rfl⟩ ?_⟩
  simp only [Env.allowance, Guard.allowance]
  omega

end Descent
