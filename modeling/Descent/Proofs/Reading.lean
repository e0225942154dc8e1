-- SUMMARY: What parsers read off the characters ahead, and where they run into the depth limit.
import Descent.Proofs.MatchedText
import Descent.Proofs.RunFaults

/-! # Reading

An evaluation that only the depth limit can stop either answers or is refused a
delegation. Both are described here by the characters ahead of the cursor alone:
`Reads` for a parser that matches some of them, `Rejects` for one that does not
match, and `Refuses` for one that needs more delegations than may be opened. Each
combinator has one law for each of these that concerns it, so that the behaviour of
a grammar on a text is put together as the grammar is. -/

namespace Descent

namespace Eval

variable {α β : Type} {K : Env → State → Prop} {Q : α → Prop} {name : String} {x : Eval α}

/-- In every situation of a kind the guard of the active run stops the computation at a
    use of the named rule. -/
def Refused (K : Env → State → Prop) (name : String) (x : Eval α) : Prop :=
  ∀ env s, K env s → ∃ scope position s', env.scope = some scope ∧
    x.run env s = (.error (.depth scope.guard.limit name position), s')

theorem Refused.bind (hx : Refused K name x) (f : α → Eval β) : Refused K name (x >>= f) := by
  intro env s hs
  obtain ⟨scope, position, s', hscope, hrun⟩ := hx env s hs
  exact ⟨scope, position, s', hscope, run_bind_of_error hrun⟩

theorem Returns.refused {f : α → Eval β} (hx : Returns K Q x)
    (hf : ∀ a, Q a → Refused K name (f a)) : Refused K name (x >>= f) := by
  intro env s hs
  obtain ⟨a, s', hrun, ha, hs'⟩ := hx env s hs
  rw [run_bind_of_ok hrun]
  exact hf a ha env s' hs'

end Eval

/-! ## Characters ahead -/

/-- No character at the front passes the test. -/
def Stops (test : Char → Bool) (cs : List Char) : Prop := ∀ ch ∈ cs.head?, test ch = false

/-- All characters are blanks. -/
def Blank (cs : List Char) : Prop := ∀ ch ∈ cs, Parser.isBlank ch = true

theorem stops_nil (test : Char → Bool) : Stops test [] := nofun

theorem stops_cons {test : Char → Bool} {ch : Char} {cs : List Char} :
    Stops test (ch :: cs) ↔ test ch = false := by
  simp [Stops]

/-- Blanks in between do not matter to a test that no blank passes. -/
theorem Blank.stops {test : Char → Bool} {u cs : List Char} (hu : Blank u)
    (hblank : ∀ ch, Parser.isBlank ch = true → test ch = false) (hcs : Stops test cs) :
    Stops test (u ++ cs) := by
  cases u with
  | nil => exact hcs
  | cons ch u => exact stops_cons.2 (hblank ch (hu ch List.mem_cons_self))

theorem Cursor.head?_of_rest {c : Cursor} {ch : Char} {cs : List Char} (h : c.rest = ch :: cs) :
    c.head? = some ch := by
  rw [head?_eq, h]
  rfl

theorem Cursor.rest_advance_one {c : Cursor} {ch : Char} {cs : List Char} (h : c.rest = ch :: cs) :
    (c.advance 1).rest = cs := by
  rw [rest_advance, h]
  rfl

theorem Parser.rest_skipBlanks {c : Cursor} {u cs : List Char} (h : c.rest = u ++ cs)
    (hu : Blank u) (hcs : Stops isBlank cs) : (skipBlanks c).rest = cs := by
  have htake : (u ++ cs).takeWhile isBlank = u := by
    rw [List.takeWhile_append_of_pos hu]
    cases cs with
    | nil => simp
    | cons ch cs => simp [stops_cons.1 hcs]
  rw [skipBlanks_eq, Cursor.rest_advance, h, htake, Int.toNat_natCast, List.drop_left]

/-! ## Judgements -/

/-- A success with such a value, before the given characters. -/
def Outcome.Leaves (Q : Value → Prop) (after : List Char) (o : Outcome) : Prop :=
  ∃ v n, o = .success v n ∧ n.rest = after ∧ Q v

theorem Outcome.Leaves.mono {P Q : Value → Prop} {after : List Char} {o : Outcome}
    (ho : o.Leaves P after) (h : ∀ v, P v → Q v) : o.Leaves Q after := by
  obtain ⟨v, n, ho, hn, hv⟩ := ho
  exact ⟨v, n, ho, hn, h v hv⟩

/-- A failure, and one that a choice can report. -/
def Outcome.Misses (o : Outcome) : Prop := ∃ f, o = .failure f ∧ f.spliced ≠ []

/-- The value of a matched character. -/
def Value.letter (ch : Char) : Value := .atom (String.singleton ch)

/-- The text of matched characters is made of them. -/
theorem Value.toList_text_letters (t : List Char) :
    (list (t.map letter)).text.toList = t := by
  induction t with
  | nil => rfl
  | cons ch t ih =>
    rw [List.map_cons, text_cons, String.toList_append, ih]
    simp [letter, text]

namespace Parser

/-- Where the characters ahead are `t` and then `after`, the parser matches `t` with such
    a value. -/
def Reads (K : Env → State → Prop) (p : Parser) (Q : Value → Prop) (t after : List Char) : Prop :=
  ∀ c : Cursor, c.rest = t ++ after → Eval.Returns K (Outcome.Leaves Q after) (p.fn c)

/-- Where the characters ahead are `cs`, the parser does not match. -/
def Rejects (K : Env → State → Prop) (p : Parser) (cs : List Char) : Prop :=
  ∀ c : Cursor, c.rest = cs → Eval.Returns K Outcome.Misses (p.fn c)

/-- Where the characters ahead are `cs`, the parser needs the named rule once more than the
    guard permits. -/
def Refuses (K : Env → State → Prop) (p : Parser) (name : String) (cs : List Char) : Prop :=
  ∀ c : Cursor, c.rest = cs → Eval.Refused K name (p.fn c)

section Laws

variable {K : Env → State → Prop} {p q : Parser} {P Q R : Value → Prop}
  {t u after cs : List Char} {name : String}

theorem Reads.mono (hp : p.Reads K P t after) (h : ∀ v, P v → Q v) : p.Reads K Q t after :=
  fun c hc => (hp c hc).mono fun _ ho => ho.mono h

/-! ### Primitive parsers -/

theorem reads_char (ch : Char) (after : List Char) :
    (char ch).Reads K (· = .letter ch) [ch] after := by
  intro c hc
  have hhead : c.head? = some ch := Cursor.head?_of_rest hc
  refine .pure ⟨_, _, ?_, Cursor.rest_advance_one hc, rfl⟩
  simp only [hhead, if_true, Value.letter]

theorem rejects_char {ch : Char} (h : Stops (· = ch) cs) : (char ch).Rejects K cs := by
  rintro c rfl
  rw [Stops, ← c.head?_eq] at h
  refine .pure ?_
  dsimp only
  split
  · exact ⟨_, rfl, Failure.spliced_ne_nil_of_kind nofun⟩
  · rename_i found hfound
    rw [if_neg (of_decide_eq_false (h found hfound))]
    exact ⟨_, rfl, Failure.spliced_ne_nil_of_kind nofun⟩

theorem rejects_char_cons {ch found : Char} (h : found ≠ ch) :
    (char ch).Rejects K (found :: cs) :=
  rejects_char (stops_cons.2 (decide_eq_false h))

theorem apply_ofTest (test : Char → Bool) (ch : Char) :
    (Predicate.ofTest test).apply ch = pure (test ch) := rfl

theorem reads_satisfy (description : String) {test : Char → Bool} {ch : Char}
    (h : test ch = true) (after : List Char) :
    (satisfy description (.ofTest test)).Reads K (· = .letter ch) [ch] after := by
  intro c hc
  have hhead : c.head? = some ch := Cursor.head?_of_rest hc
  simp only [satisfy, hhead, apply_ofTest, h, Eval.pure_bind, if_true]
  exact .pure ⟨_, _, rfl, Cursor.rest_advance_one hc, rfl⟩

theorem rejects_satisfy (description : String) {test : Char → Bool} (h : Stops test cs) :
    (satisfy description (.ofTest test)).Rejects K cs := by
  rintro c rfl
  rw [Stops, ← c.head?_eq] at h
  unfold satisfy
  dsimp only
  split
  · exact .pure ⟨_, rfl, Failure.spliced_ne_nil_of_kind nofun⟩
  · rename_i found hfound
    rw [apply_ofTest, h found hfound]
    exact .pure ⟨_, rfl, Failure.spliced_ne_nil_of_kind nofun⟩

theorem reads_spaces (hu : Blank u) (hafter : Stops isBlank after) :
    spaces.Reads K (fun _ => True) u after :=
  fun _ hc => .pure ⟨_, _, rfl, rest_skipBlanks hc hu hafter, trivial⟩

/-! ### Tokens, values and names -/

theorem Reads.token (hp : p.Reads K Q t (u ++ after)) (hu : Blank u)
    (hafter : Stops isBlank after) : p.token.Reads K Q (t ++ u) after := by
  intro c hc
  rw [List.append_assoc] at hc
  refine (hp c hc).bind ?_
  rintro _ ⟨v, n, rfl, hn, hv⟩
  exact .pure ⟨_, _, rfl, rest_skipBlanks hn hu hafter, hv⟩

/-- A character with a meaning of its own, and the blanks after it. -/
theorem reads_symbol (ch : Char) (hu : Blank u) (hcs : Stops isBlank cs) :
    (char ch).token.Reads K (· = .letter ch) (ch :: u) cs :=
  (reads_char ch _).token hu hcs

theorem Rejects.token (hp : p.Rejects K cs) : p.token.Rejects K cs := by
  intro c hc
  refine (hp c hc).bind ?_
  rintro _ ⟨f, rfl, hf⟩
  exact .pure ⟨_, rfl, hf⟩

theorem Refuses.token (hp : p.Refuses K name cs) : p.token.Refuses K name cs :=
  fun c hc => (hp c hc).bind _

theorem Reads.map {f : Value → Reply} (hp : p.Reads K P t after)
    (hf : ∀ v, P v → ∃ w, f v = .value w ∧ Q w) : (p.map f).Reads K Q t after := by
  intro c hc
  refine (hp c hc).bind ?_
  rintro _ ⟨v, n, rfl, hn, hv⟩
  obtain ⟨w, hw, hQ⟩ := hf v hv
  simp only [Eval.pure_bind, hw, Reply.toValue]
  exact .next (.ofExcept rfl) (.pure ⟨_, _, rfl, hn, hQ⟩)

theorem Rejects.map (f : Value → Reply) (hp : p.Rejects K cs) : (p.map f).Rejects K cs := by
  intro c hc
  refine (hp c hc).bind ?_
  rintro _ ⟨e, rfl, he⟩
  exact .pure ⟨_, rfl, he⟩

/-! ### Sequences and brackets -/

theorem Reads.between {o : Parser} {t₁ t₂ t₃ : List Char}
    (ho : o.Reads K P t₁ (t₂ ++ (t₃ ++ after))) (hp : p.Reads K Q t₂ (t₃ ++ after))
    (hq : q.Reads K R t₃ after) : (o.between p q).Reads K Q (t₁ ++ (t₂ ++ t₃)) after := by
  intro c hc
  rw [List.append_assoc, List.append_assoc] at hc
  refine (ho c hc).bind ?_
  rintro _ ⟨_, n₁, rfl, hn₁, -⟩
  refine (hp n₁ hn₁).bind ?_
  rintro _ ⟨v, n₂, rfl, hn₂, hv⟩
  refine (hq n₂ hn₂).bind ?_
  rintro _ ⟨_, n₃, rfl, hn₃, -⟩
  exact .pure ⟨_, _, rfl, hn₃, hv⟩

theorem Rejects.between {o : Parser} (ho : o.Rejects K cs) (p q : Parser) :
    (o.between p q).Rejects K cs := by
  intro c hc
  refine (ho c hc).bind ?_
  rintro _ ⟨f, rfl, hf⟩
  exact .pure ⟨_, rfl, hf⟩

theorem Refuses.between {o : Parser} (hp : p.Refuses K name cs) (ho : o.Reads K P t cs)
    (q : Parser) : (o.between p q).Refuses K name (t ++ cs) := by
  intro c hc
  refine (ho c hc).refused ?_
  rintro _ ⟨_, n, rfl, hn, -⟩
  exact (hp n hn).bind _

theorem Reads.pair (hp : p.Reads K P t (u ++ after)) (hq : q.Reads K Q u after) :
    (p.seq [q]).Reads K (fun v => ∃ a b, v = .list [a, b] ∧ P a ∧ Q b) (t ++ u) after := by
  intro c hc
  rw [List.append_assoc] at hc
  refine (hp c hc).bind ?_
  rintro _ ⟨a, n, rfl, hn, ha⟩
  refine (hq n hn).bind ?_
  rintro _ ⟨b, m, rfl, hm, hb⟩
  exact .pure ⟨_, _, rfl, hm, a, b, rfl, ha, hb⟩

theorem Rejects.pair (hq : q.Rejects K after) (hp : p.Reads K P t after) :
    (p.seq [q]).Rejects K (t ++ after) := by
  intro c hc
  refine (hp c hc).bind ?_
  rintro _ ⟨a, n, rfl, hn, -⟩
  refine (hq n hn).bind ?_
  rintro _ ⟨f, rfl, -⟩
  exact .pure ⟨_, rfl, Failure.spliced_ne_nil_of_kind nofun⟩

theorem Reads.optional (hp : p.Reads K Q t after) : p.optional.Reads K Q t after := by
  intro c hc
  refine (hp c hc).bind ?_
  rintro _ ⟨v, n, rfl, hn, hv⟩
  exact .pure ⟨_, _, rfl, hn, hv⟩

theorem Rejects.optional (hp : p.Rejects K cs) : p.optional.Reads K (· = .list []) [] cs := by
  intro c hc
  refine (hp c hc).bind ?_
  rintro _ ⟨f, rfl, -⟩
  exact .pure ⟨_, _, rfl, hc, rfl⟩

/-! ### Choice -/

/-- Branches that do not match are passed over. -/
theorem tryEach_returns {before later : List Parser} {S : Outcome → Prop} {c : Cursor}
    (hbefore : ∀ b ∈ before, b.Rejects K c.rest) (hp : Eval.Returns K S (p.fn c))
    (hS : ∀ o, S o → o.isSuccess = true) (failed : List Failure) :
    Eval.Returns K S (tryEach failed (before ++ p :: later) c) := by
  induction before generalizing failed with
  | nil =>
    refine hp.bind fun o ho => ?_
    cases o with
    | success v n => exact .pure ho
    | failure f => cases hS _ ho
  | cons b before ih =>
    refine (hbefore b List.mem_cons_self c rfl).bind ?_
    rintro _ ⟨f, rfl, -⟩
    exact ih (fun b hb => hbefore b (List.mem_cons_of_mem _ hb)) _

theorem tryEach_refused {before later : List Parser} {c : Cursor}
    (hbefore : ∀ b ∈ before, b.Rejects K c.rest) (hp : Eval.Refused K name (p.fn c))
    (failed : List Failure) : Eval.Refused K name (tryEach failed (before ++ p :: later) c) := by
  induction before generalizing failed with
  | nil => exact hp.bind _
  | cons b before ih =>
    refine (hbefore b List.mem_cons_self c rfl).refused ?_
    rintro _ ⟨f, rfl, -⟩
    exact ih (fun b hb => hbefore b (List.mem_cons_of_mem _ hb)) _

theorem tryEach_fails {ps : List Parser} {c : Cursor} (hps : ∀ p ∈ ps, p.Rejects K c.rest)
    {failed : List Failure} {f : Failure} (hf : f ∈ failed) (hspliced : f.spliced ≠ []) :
    Eval.Returns K Outcome.Misses (tryEach failed ps c) := by
  induction ps generalizing failed with
  | nil =>
    obtain ⟨g, hg⟩ := Failure.exists_alternatives (List.mem_reverse.2 hf) hspliced
    simp only [tryEach, noneMatched, hg]
    exact .pure ⟨g, rfl, Failure.spliced_alternatives_ne_nil hg⟩
  | cons p ps ih =>
    refine (hps p List.mem_cons_self c rfl).bind ?_
    rintro _ ⟨g, rfl, -⟩
    exact ih (fun p hp => hps p (List.mem_cons_of_mem _ hp)) (List.mem_cons_of_mem _ hf)

theorem Reads.choice {first : Parser} {rest before later : List Parser}
    (hp : p.Reads K Q t after) (hbefore : ∀ b ∈ before, b.Rejects K (t ++ after))
    (heq : first :: rest = before ++ p :: later) : (first.choice rest).Reads K Q t after := by
  intro c hc
  rw [← hc] at hbefore
  have h : Eval.Returns K (Outcome.Leaves Q after) (tryEach [] (before ++ p :: later) c) := by
    refine tryEach_returns hbefore (hp c hc) ?_ _
    rintro _ ⟨v, n, rfl, -⟩
    rfl
  rwa [← heq] at h

theorem Refuses.choice {first : Parser} {rest before later : List Parser}
    (hp : p.Refuses K name cs) (hbefore : ∀ b ∈ before, b.Rejects K cs)
    (heq : first :: rest = before ++ p :: later) : (first.choice rest).Refuses K name cs := by
  rintro c rfl
  have h : Eval.Refused K name (tryEach [] (before ++ p :: later) c) :=
    tryEach_refused hbefore (hp c rfl) _
  rwa [← heq] at h

theorem Rejects.choice {first : Parser} {rest : List Parser} (hfirst : first.Rejects K cs)
    (hrest : ∀ p ∈ rest, p.Rejects K cs) : (first.choice rest).Rejects K cs := by
  rintro c rfl
  refine (hfirst c rfl).bind ?_
  rintro _ ⟨f, rfl, hf⟩
  exact tryEach_fails hrest List.mem_cons_self hf

end Laws

/-! ## Loops

Each round starts with a look at the limits. -/

section Loops

variable {rules : Rules} {parts : Parts} {p sep : Parser} {P Q : Value → Prop}
  {S : List Value → Prop} {t u cs after : List Char} {name : String}

/-- The cursor after some characters has less left. -/
theorem remaining_lt_of_rest {c n : Cursor} (hc : c.rest = t ++ cs) (ht : t ≠ [])
    (hn : n.rest = cs) : n.remaining < c.remaining := by
  rw [← n.length_rest, ← c.length_rest, hc, hn, List.length_append]
  have := List.length_pos_iff.2 ht
  omega

/-! ### Repetitions -/

/-- A parser of single characters is repeated over all of a text before which it stops. -/
theorem repeatFrom_letters (hp : ∀ ch ∈ t, ∀ cs,
      p.Reads (Unhindered rules parts) (· = .letter ch) [ch] cs)
    (hstop : p.Rejects (Unhindered rules parts) after) {c : Cursor} (hc : c.rest = t ++ after)
    (values : List Value) :
    Eval.Returns (Unhindered rules parts)
      (fun r => r.values = values.reverse ++ t.map .letter ∧ r.stop.rest = after ∧
        ∃ f, r.ended = some f)
      (p.repeatFrom c values) := by
  induction t generalizing c values with
  | nil =>
    rw [repeatFrom_eq]
    refine .next (checkpoint_returns _) ((hstop c hc).bind ?_)
    rintro _ ⟨f, rfl, -⟩
    exact .pure ⟨(List.append_nil _).symm, hc, f, rfl⟩
  | cons ch t ih =>
    rw [repeatFrom_eq]
    refine .next (checkpoint_returns _) ((hp ch List.mem_cons_self _ c hc).bind ?_)
    rintro _ ⟨_, n, rfl, hn, rfl⟩
    simp only [if_pos (remaining_lt_of_rest (t := [ch]) hc (List.cons_ne_nil _ _) hn)]
    refine (ih (fun ch hch => hp ch (List.mem_cons_of_mem _ hch)) hn _).mono ?_
    rintro r ⟨hvalues, hstop, hended⟩
    exact ⟨by simp [hvalues], hstop, hended⟩

theorem reads_many (hp : ∀ ch ∈ t, ∀ cs,
      p.Reads (Unhindered rules parts) (· = .letter ch) [ch] cs)
    (hstop : p.Rejects (Unhindered rules parts) after) :
    p.many.Reads (Unhindered rules parts) (· = .list (t.map .letter)) t after := by
  intro c hc
  refine (repeatFrom_letters hp hstop hc []).bind ?_
  rintro r ⟨hvalues, hrest, -⟩
  exact .pure ⟨_, _, rfl, hrest, congrArg _ hvalues⟩

theorem reads_many1 (hp : ∀ ch ∈ t, ∀ cs,
      p.Reads (Unhindered rules parts) (· = .letter ch) [ch] cs)
    (hstop : p.Rejects (Unhindered rules parts) after) (ht : t ≠ []) :
    p.many1.Reads (Unhindered rules parts) (· = .list (t.map .letter)) t after := by
  intro c hc
  refine (repeatFrom_letters hp hstop hc []).bind ?_
  rintro ⟨values, stop, ended⟩ ⟨rfl, hrest, f, rfl⟩
  obtain ⟨ch, t, rfl⟩ := List.exists_cons_of_ne_nil ht
  exact .pure ⟨_, _, rfl, hrest, rfl⟩

theorem Rejects.many1 (hp : p.Rejects (Unhindered rules parts) cs) :
    p.many1.Rejects (Unhindered rules parts) cs := by
  intro c hc
  refine (repeatFrom_letters (t := []) nofun hp hc []).bind ?_
  rintro ⟨values, stop, ended⟩ ⟨rfl, -, f, rfl⟩
  exact .pure ⟨_, rfl, Failure.spliced_ne_nil_of_kind nofun⟩

/-! ### Separated lists -/

/-- Where the characters ahead are `t` and then `after`, the rounds of a separated list
    match `t` with such values. -/
def RoundsRead (rules : Rules) (parts : Parts) (p sep : Parser) (S : List Value → Prop)
    (t after : List Char) : Prop :=
  ∀ (c : Cursor) (values : List Value), c.rest = t ++ after →
    Eval.Returns (Unhindered rules parts)
      (Outcome.Leaves (fun v => ∃ vs, v = .list (values.reverse ++ vs) ∧ S vs) after)
      (p.separatedFrom sep c values)

/-- Where the characters ahead are `cs`, the rounds of a separated list need the named rule
    once more than the guard permits. -/
def RoundsRefuse (rules : Rules) (parts : Parts) (p sep : Parser) (name : String)
    (cs : List Char) : Prop :=
  ∀ (c : Cursor) (values : List Value), c.rest = cs →
    Eval.Refused (Unhindered rules parts) name (p.separatedFrom sep c values)

theorem RoundsRead.mono {S' : List Value → Prop} (hr : RoundsRead rules parts p sep S t after)
    (h : ∀ vs, S vs → S' vs) : RoundsRead rules parts p sep S' t after := by
  intro c values hc
  refine (hr c values hc).mono fun _ ho => ho.mono ?_
  rintro v ⟨vs, hv, hvs⟩
  exact ⟨vs, hv, h vs hvs⟩

theorem RoundsRead.done (hsep : sep.Rejects (Unhindered rules parts) after) :
    RoundsRead rules parts p sep (· = []) [] after := by
  intro c values hc
  rw [separatedFrom_eq]
  refine .next (checkpoint_returns _) ((hsep c hc).bind ?_)
  rintro _ ⟨f, rfl, -⟩
  exact .pure ⟨_, _, rfl, hc, [], by rw [List.append_nil], rfl⟩

theorem RoundsRead.more (hr : RoundsRead rules parts p sep S cs after)
    (hsep : sep.Reads (Unhindered rules parts) P t (u ++ (cs ++ after)))
    (hp : p.Reads (Unhindered rules parts) Q u (cs ++ after)) (ht : t ≠ []) :
    RoundsRead rules parts p sep (fun vs => ∃ v ws, vs = v :: ws ∧ Q v ∧ S ws)
      (t ++ (u ++ cs)) after := by
  intro c values hc
  rw [List.append_assoc, List.append_assoc] at hc
  rw [separatedFrom_eq]
  refine .next (checkpoint_returns _) ((hsep c hc).bind ?_)
  rintro _ ⟨_, n, rfl, hn, -⟩
  refine (hp n hn).bind ?_
  rintro _ ⟨v, m, rfl, hm, hv⟩
  rw [← List.append_assoc] at hc
  simp only [if_pos (remaining_lt_of_rest hc (List.append_ne_nil_of_left_ne_nil ht u) hm)]
  refine (hr m (v :: values) hm).mono ?_
  rintro _ ⟨_, k, rfl, hk, vs, rfl, hvs⟩
  exact ⟨_, _, rfl, hk, v :: vs, by simp, v, vs, rfl, hv, hvs⟩

theorem RoundsRefuse.here (hp : p.Refuses (Unhindered rules parts) name cs)
    (hsep : sep.Reads (Unhindered rules parts) P t cs) :
    RoundsRefuse rules parts p sep name (t ++ cs) := by
  intro c values hc
  rw [separatedFrom_eq]
  refine (checkpoint_returns _).refused fun _ _ => (hsep c hc).refused ?_
  rintro _ ⟨_, n, rfl, hn, -⟩
  exact (hp n hn).bind _

theorem RoundsRefuse.more (hr : RoundsRefuse rules parts p sep name cs)
    (hsep : sep.Reads (Unhindered rules parts) P t (u ++ cs))
    (hp : p.Reads (Unhindered rules parts) Q u cs) (ht : t ≠ []) :
    RoundsRefuse rules parts p sep name (t ++ (u ++ cs)) := by
  intro c values hc
  rw [separatedFrom_eq]
  refine (checkpoint_returns _).refused fun _ _ => (hsep c hc).refused ?_
  rintro _ ⟨_, n, rfl, hn, -⟩
  refine (hp n hn).refused ?_
  rintro _ ⟨v, m, rfl, hm, hv⟩
  rw [← List.append_assoc] at hc
  simp only [if_pos (remaining_lt_of_rest hc (List.append_ne_nil_of_left_ne_nil ht u) hm)]
  exact hr m _ hm

theorem Reads.sepBy (hp : p.Reads (Unhindered rules parts) Q t (u ++ after))
    (hr : RoundsRead rules parts p sep S u after) :
    (p.sepBy sep).Reads (Unhindered rules parts)
      (fun v => ∃ w ws, v = .list (w :: ws) ∧ Q w ∧ S ws) (t ++ u) after := by
  intro c hc
  rw [List.append_assoc] at hc
  refine (hp c hc).bind ?_
  rintro _ ⟨w, n, rfl, hn, hw⟩
  refine (hr n [w] hn).mono ?_
  rintro _ ⟨_, k, rfl, hk, ws, rfl, hws⟩
  exact ⟨_, _, rfl, hk, w, ws, rfl, hw, hws⟩

theorem Rejects.sepBy (hp : p.Rejects (Unhindered rules parts) cs) (sep : Parser) :
    (p.sepBy sep).Reads (Unhindered rules parts) (· = .list []) [] cs := by
  intro c hc
  refine (hp c hc).bind ?_
  rintro _ ⟨f, rfl, -⟩
  exact .pure ⟨_, _, rfl, hc, rfl⟩

theorem Refuses.sepBy (hp : p.Refuses (Unhindered rules parts) name cs) (sep : Parser) :
    (p.sepBy sep).Refuses (Unhindered rules parts) name cs :=
  fun c hc => (hp c hc).bind _

theorem RoundsRefuse.sepBy (hr : RoundsRefuse rules parts p sep name cs)
    (hp : p.Reads (Unhindered rules parts) Q t cs) :
    (p.sepBy sep).Refuses (Unhindered rules parts) name (t ++ cs) := by
  intro c hc
  refine (hp c hc).refused ?_
  rintro _ ⟨w, n, rfl, hn, -⟩
  exact hr n _ hn

end Loops

end Parser

/-! ## Delegations

A rule answers as its parser does when one delegation less may be opened. When none may
be opened, it is refused whatever is ahead. -/

section Delegations

variable {rules : Rules} {parts : Parts} {Q : Value → Prop} {t after cs : List Char}
  {runInner : RunGrammar} {n : Nat} {r : Rule} {g : Grammar} {name : String}

theorem refuse_refused {α : Type} (r : Rule) (position : Nat) :
    Eval.Refused (Unhindered rules parts) (rules.ruleName r) (refuse r position : Eval α) := by
  intro env s hs
  obtain ⟨scope, hscope, -⟩ := hs.scope
  obtain rfl := hs.envRules
  exact ⟨scope, position, _, hscope, run_refuse hscope r position s⟩

theorem deeper_refused {α : Type} {x : Eval α} (hx : Eval.Refused (Unhindered rules parts) name x)
    (r : Rule) (position : Nat) :
    Eval.Refused (Unhindered rules parts) name (deeper r position x) := by
  intro env s hs
  obtain ⟨scope, hscope, hdeadline, hcancelled⟩ := hs.scope
  let inner : Env := { env with scope := some { scope with guard := scope.guard.enter } }
  let opened := s.emit (.opened r position scope.guard.enter.depth)
  have hinner : Unhindered rules parts inner opened :=
    ⟨hs.envRules, ⟨_, rfl, hdeadline, hcancelled⟩, hs.cells⟩
  obtain ⟨_, p, s', hscope', hrun⟩ := hx inner opened hinner
  cases hscope'
  refine ⟨scope, p, s'.emit (.closed r), hscope, ?_⟩
  rw [run_deeper hscope, Eval.run_closing, hrun]
  rfl

theorem Parser.Reads.ref (hg : (g.denote (rules.links runInner n)).Reads
      (Unhindered rules parts) Q t after)
    (hr : parts.rule r) (hbody : (rules r).body = .grammar g) :
    ((Grammar.ref r).denote (rules.links runInner (n + 1))).Reads
      (Unhindered rules parts) Q t after :=
  fun c hc => ref_returns (hg c hc) hr hbody

theorem Parser.Rejects.ref (hg : (g.denote (rules.links runInner n)).Rejects
      (Unhindered rules parts) cs)
    (hr : parts.rule r) (hbody : (rules r).body = .grammar g) :
    ((Grammar.ref r).denote (rules.links runInner (n + 1))).Rejects
      (Unhindered rules parts) cs :=
  fun c hc => ref_returns (hg c hc) hr hbody

theorem Parser.Refuses.ref (hg : (g.denote (rules.links runInner n)).Refuses
      (Unhindered rules parts) name cs)
    (hr : parts.rule r) (hbody : (rules r).body = .grammar g) :
    ((Grammar.ref r).denote (rules.links runInner (n + 1))).Refuses
      (Unhindered rules parts) name cs := by
  intro c hc
  refine (resolve_returns runInner hr hbody).refused ?_
  rintro _ rfl
  exact (checkpoint_returns _).refused fun _ _ => deeper_refused (hg c hc) _ _

theorem Parser.refuses_ref (hr : parts.rule r) (hbody : (rules r).body = .grammar g)
    (cs : List Char) :
    ((Grammar.ref r).denote (rules.links runInner 0)).Refuses
      (Unhindered rules parts) (rules.ruleName r) cs :=
  fun _ _ => (resolve_returns runInner hr hbody).refused fun _ _ =>
    (checkpoint_returns _).refused fun _ _ => refuse_refused _ _

end Delegations

/-! ## Runs -/

section Runs

variable {parts : Parts} {p : Parser} {o : RunOptions} {source : Source} {env : Env} {s : State}

/-- A run with these options has no deadline and was not cancelled, and none of the rules is
    broken or being built when it starts. -/
structure RunOptions.Unhindered (o : RunOptions) (parts : Parts) (env : Env) (s : State) :
    Prop where
  timeout : o.timeout = none
  cancelled : (o.watched && s.cancelled) = false
  cells : ∀ r g, parts.rule r → (env.rules r).body = .grammar g →
    s.cells r = .unbuilt ∨ s.cells r = .built g

/-- Such a run tries its parser at the start of the source under the depth limit alone. -/
theorem Parser.run_unhindered (p : Parser) (h : o.Unhindered parts env s)
    (hsize : o.rejects source.size = false) :
    ∃ env' s', Unhindered env.rules parts env' s' ∧
      env'.scope = some ⟨.ofRequested o.maxDepth, none, o.watched⟩ ∧
      (p.run o source).run env s = match (p.fn (.start source)).run env' s' with
        | (.ok out, s'') => (p.conclude (out.whole o)).run env (s''.emit .ended)
        | (.error f, s'') => (.error f, s''.emit .ended) := by
  let scope : Scope := ⟨.ofRequested o.maxDepth, none, o.watched⟩
  let s₁ : State := { s with
    journal := o.foreword ++ s.journal
    readings := s.readings + o.readings }
  have hopen : (openScope o.maxDepth o.timeout o.watched).run env s = (.ok scope, s₁) := by
    have hdeadline : o.deadline (env.clock s.readings) = .ok none := by
      rw [RunOptions.deadline, h.timeout]
    rw [run_openScope, hdeadline]
    rfl
  refine ⟨{ env with scope := some scope }, s₁.emit (.running p.name source.size),
    ⟨rfl, ⟨scope, rfl, rfl, h.cancelled⟩, h.cells⟩, rfl, ?_⟩
  rw [Parser.run_eq, hsize, if_neg Bool.false_ne_true, Eval.run_bind_of_ok hopen,
    Eval.run_bind_of_ok (Eval.run_emit _ _ _), Eval.run_bind, Eval.run_closing, Eval.run_within]
  rcases (p.fn (.start source)).run _ _ with ⟨_ | _, s''⟩ <;> rfl

/-- A parser that reads all of a source answers so in a run. -/
theorem Parser.Reads.run {Q : Value → Prop}
    (hp : p.Reads (Unhindered env.rules parts) Q source.toList [])
    (h : o.Unhindered parts env s) (hsize : o.rejects source.size = false) :
    ∃ v n, ((p.run o source).run env s).1 = .ok (.success v n) ∧ n.atEnd = true ∧ Q v := by
  obtain ⟨env', s', hs', -, heq⟩ := p.run_unhindered h hsize
  have hstart : (Cursor.start source).rest = source.toList ++ [] := (List.append_nil _).symm
  obtain ⟨_, s'', hrun, ⟨v, n, rfl, hn, hv⟩, -⟩ := hp (.start source) hstart env' s' hs'
  have hend : n.atEnd = true := n.atEnd_iff_rest.2 hn
  have hwhole : Outcome.whole o (.success v n) = .success v n := by
    simp [Outcome.whole, n.head?_eq_none_iff.2 hend]
  refine ⟨v, n, ?_, hend, hv⟩
  rw [heq, hrun]
  dsimp only
  rw [hwhole]
  rfl

/-- A parser that needs a rule too often stops a run with the limit in force. -/
theorem Parser.Refuses.run {name : String}
    (hp : p.Refuses (Unhindered env.rules parts) name source.toList)
    (h : o.Unhindered parts env s) (hsize : o.rejects source.size = false) :
    ∃ position, ((p.run o source).run env s).1 =
      .error (.depth (effectiveLimit o.maxDepth) name position) := by
  obtain ⟨env', s', hs', hscope, heq⟩ := p.run_unhindered h hsize
  obtain ⟨scope, position, s'', hscope', hrun⟩ := hp (.start source) rfl env' s' hs'
  cases hscope.symm.trans hscope'
  refine ⟨position, ?_⟩
  rw [heq, hrun]
  rfl

end Runs

end Descent
