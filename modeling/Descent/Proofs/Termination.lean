-- SUMMARY: Evaluation as a procedure without any measure ends, and it is the evaluator.
import Descent.Proofs.DepthLimit

/-! # Every run ends

The evaluator recurs on the number of delegations that may still be opened, on
the grammar and on what is left of the source. The procedure that it stands for
knows none of these: a rule goes on with its parser if the guard permits it, and
a loop goes on until a round fails or leaves the position as it was.

Here that procedure is written down as it is. Its calls are followed down to some
depth, and its answer is the one on which this settles as the depth grows; where
there is none, `none` stands for going on for ever. `Grammar.run_ends` says that a
run never does, whatever the rules are, and that its answer is that of the
evaluator. It rests on two facts: an open delegation uses up one of those that the
guard permits, and no parser moves the cursor back. Outside a run a rule that begins
with itself does go on for ever: `Unbounded.delegate_leftRecursive`.

Runs that builders start are those of the evaluator. -/

namespace Descent

/-! ## Settling -/

/-- The answers are the same from some depth on. -/
def Settles {γ : Type} (z : Nat → Option γ) (v : γ) : Prop := ∃ N, ∀ n, N ≤ n → z n = some v

namespace Settles

variable {γ δ : Type} {z : Nat → Option γ} {v w : γ}

theorem const (v : γ) : Settles (fun _ => some v) v := ⟨0, fun _ _ => rfl⟩

theorem succ (h : Settles (fun n => z (n + 1)) v) : Settles z v := by
  obtain ⟨N, hN⟩ := h
  refine ⟨N + 1, fun n hn => ?_⟩
  cases n with
  | zero => cases hn
  | succ n => exact hN n (Nat.le_of_succ_le_succ hn)

theorem bind {k : Nat → γ → Option δ} {b : δ} (hz : Settles z v)
    (hk : Settles (fun n => k n v) b) : Settles (fun n => (z n).bind (k n)) b := by
  obtain ⟨N, hN⟩ := hz
  obtain ⟨M, hM⟩ := hk
  refine ⟨max N M, fun n hn => ?_⟩
  have hz' : z n = some v := hN n (Nat.le_trans (Nat.le_max_left N M) hn)
  have hk' : k n v = some b := hM n (Nat.le_trans (Nat.le_max_right N M) hn)
  simp only [hz', Option.bind_some, hk']

theorem unique (hv : Settles z v) (hw : Settles z w) : v = w := by
  obtain ⟨N, hN⟩ := hv
  obtain ⟨M, hM⟩ := hw
  have h : some v = some w :=
    (hN (max N M) (Nat.le_max_left N M)).symm.trans (hM (max N M) (Nat.le_max_right N M))
  cases h
  rfl

end Settles

/-! ## The procedure -/

/-- A computation that may go on for ever. -/
abbrev Proc (α : Type) := ReaderT Env (ExceptT Fault (StateT State Option)) α

namespace Proc

variable {α β : Type}

/-- A computation that ends. -/
def ofEval (x : Eval α) : Proc α := fun env s => some (x.run env s)

/-- Writes an event down after a computation, also after one that is stopped. -/
def closing (e : Event) (x : Proc α) : Proc α := fun env s =>
  (x env s).map fun (answer, s') => (answer, s'.emit e)

/-- A computation inside another scope. -/
def within (scope : Option Scope) (x : Proc α) : Proc α := fun env s =>
  x { env with scope := scope } s

/-- What the runs of a procedure down to some depth of calls settle on. It goes on
    for ever if they settle on nothing. -/
noncomputable def limit (x : Nat → Proc α) : Proc α := fun env s =>
  open Classical in
  if h : ∃ v, Settles (fun n => x n env s) v then some (choose h) else none

theorem limit_eq_some {x : Nat → Proc α} {env : Env} {s : State} {v : Except Fault α × State}
    (h : Settles (fun n => x n env s) v) : limit x env s = some v := by
  have hex : ∃ v, Settles (fun n => x n env s) v := ⟨v, h⟩
  have hchoose : Classical.choose hex = v := (Classical.choose_spec hex).unique h
  simp [limit, dif_pos hex, hchoose]

theorem read_bind (f : Env → Proc α) (env : Env) (s : State) :
    (read >>= f) env s = f env env s := rfl

theorem ofEval_bind_of_ok {x : Eval α} {f : α → Proc β} {env : Env} {s s' : State} {a : α}
    (h : x.run env s = (.ok a, s')) : (ofEval x >>= f) env s = f a env s' := by
  simp only [bind, ReaderT.bind, ExceptT.bind, ExceptT.mk, StateT.bind, ofEval, h,
    Option.bind_some]
  rfl

theorem bind_of_none {x : Proc α} {f : α → Proc β} {env : Env} {s : State}
    (h : x env s = none) : (x >>= f) env s = none := by
  simp only [bind, ReaderT.bind, ExceptT.bind, ExceptT.mk, StateT.bind, h, Option.bind_none]

theorem closing_settles {x : Nat → Proc α} {y : Eval α} {env : Env} {s : State}
    (h : Settles (fun n => x n env s) (y.run env s)) (e : Event) :
    Settles (fun n => closing e (x n) env s) ((Eval.closing e y).run env s) := by
  obtain ⟨N, hN⟩ := h
  refine ⟨N, fun n hn => ?_⟩
  simp only [closing, hN n hn, Option.map_some, Eval.run_closing]

theorem bind_settles {x : Nat → Proc α} {f : Nat → α → Proc β} {y : Eval α} {g : α → Eval β}
    {env : Env} {s : State} (hx : Settles (fun n => x n env s) (y.run env s))
    (hf : ∀ a s', y.run env s = (.ok a, s') →
      Settles (fun n => f n a env s') ((g a).run env s')) :
    Settles (fun n => (x n >>= f n) env s) ((y >>= g).run env s) := by
  refine Settles.bind hx ?_
  rw [Eval.run_bind]
  cases hrun : y.run env s with
  | mk r s' =>
    cases r with
    | ok a => exact hf a s' hrun
    | error e => exact .const _

end Proc

namespace Unbounded

section Procedure

variable (rules : Rules) (runInner : RunGrammar)

mutual
/-- Tries a grammar at a cursor. -/
def eval : (depth : Nat) → Grammar → Cursor → Proc Outcome
  | 0, _, _ => fun _ _ => none
  | _ + 1, .char ch, c => .ofEval ((Parser.char ch).fn c)
  | _ + 1, .literal s, c => .ofEval ((Parser.literal s).fn c)
  | _ + 1, .satisfy description p, c => .ofEval ((Parser.satisfy description p).fn c)
  | _ + 1, .eof, c => .ofEval (Parser.eof.fn c)
  | _ + 1, .spaces, c => .ofEval (Parser.spaces.fn c)
  | d + 1, .either a b, c => do
    match ← eval d a c with
    | .success v n => return .success v n
    | .failure f => match ← eval d b c with
      | .success v n => return .success v n
      | .failure g => .ofEval (Parser.noneMatched [f, g])
  | d + 1, .choice p ps, c => evalFirst d [] (p :: ps) c
  | d + 1, .both a b, c => do
    match ← eval d a c with
    | .failure f => return .failure f
    | .success .. => eval d b c
  | d + 1, .absent p, c => do
    match ← eval d p c with
    | .success .. => return .failAt c .notExpected (.notExpected (p.name rules.ruleName))
    | .failure _ => return .success (.atom "") c
  | d + 1, .seq p ps, c => evalSeq d 0 [] (p :: ps) c
  | d + 1, .between o p q, c => do
    match ← eval d o c with
    | .failure f => return .failure f
    | .success _ n₁ => match ← eval d p n₁ with
      | .failure f => return .failure f
      | .success v n₂ => match ← eval d q n₂ with
        | .failure f => return .failure f
        | .success _ n₃ => return .success v n₃
  | d + 1, .many p, c => do
    let r ← repeatFrom d p c []
    return .success (.list r.values) r.stop
  | d + 1, .many1 p, c => do
    let r ← repeatFrom d p c []
    match r.values, r.ended with
    | [], some f => return .failure (f.insufficient (p.name rules.ruleName) c)
    | values, _ => return .success (.list values) r.stop
  | d + 1, .optional p, c => do
    match ← eval d p c with
    | .success v n => return .success v n
    | .failure _ => return .success (.list []) c
  | d + 1, .sepBy p sep, c => do
    match ← eval d p c with
    | .failure _ => return .success (.list []) c
    | .success v n => separatedFrom d p sep n [v]
  | d + 1, .sepBy1 p sep, c => do
    match ← eval d p c with
    | .failure f => return .failure f
    | .success v n => separatedFrom d p sep n [v]
  | d + 1, .token p, c => do
    match ← eval d p c with
    | .failure f => return .failure f
    | .success v n => return .success v (Parser.skipBlanks n)
  | d + 1, .map p fn, c => do
    match ← eval d p c with
    | .failure f => return .failure f
    | .success v n =>
      let w ← .ofEval (.ofExcept ((fn v).toValue (p.name rules.ruleName)))
      return .success w n
  | d + 1, .mapRun p options inner, c => do
    match ← eval d p c with
    | .failure f => return .failure f
    | .success v n =>
      let outcome ← .ofEval (runInner options inner v.text)
      let w ← .ofEval (.ofExcept ((Grammar.replyOf outcome).toValue (p.name rules.ruleName)))
      return .success w n
  | d + 1, .named _ p, c => eval d p c
  | d + 1, .ref r, c => delegate d r c
  | d + 1, .mark label p, c => do
    .ofEval (.emit (.mark label c.pos))
    eval d p c
  | _ + 1, .author _ fn, c => return fn c

/-- Tries grammars in order, after the branches that failed already. -/
def evalFirst : (depth : Nat) → List Failure → List Grammar → Cursor → Proc Outcome
  | 0, _, _, _ => fun _ _ => none
  | _ + 1, failed, [], _ => .ofEval (Parser.noneMatched failed.reverse)
  | d + 1, failed, p :: ps, c => do
    match ← eval d p c with
    | .success v n => return .success v n
    | .failure f => evalFirst d (f :: failed) ps c

/-- Tries grammars one after the other, after the values of those before them. -/
def evalSeq : (depth index : Nat) → List Value → List Grammar → Cursor → Proc Outcome
  | 0, _, _, _, _ => fun _ _ => none
  | _ + 1, _, values, [], c => return .success (.list values.reverse) c
  | d + 1, index, values, p :: ps, c => do
    match ← eval d p c with
    | .failure f => return .failure (f.ofElement index)
    | .success v n => evalSeq d (index + 1) (v :: values) ps n

/-- Goes on with a repetition until a round fails or does not move. -/
def repeatFrom : (depth : Nat) → Grammar → Cursor → List Value → Proc Repetition
  | 0, _, _, _ => fun _ _ => none
  | d + 1, p, c, values => do
    .ofEval (checkpoint c.pos)
    match ← eval d p c with
    | .failure f => return ⟨values.reverse, c, some f⟩
    | .success v next =>
      if next.pos = c.pos then
        .ofEval (.emit (.zeroWidth (p.name rules.ruleName) c.pos))
        return ⟨(v :: values).reverse, c, none⟩
      else repeatFrom d p next (v :: values)

/-- Goes on with a separated list until a round fails or does not move. -/
def separatedFrom : (depth : Nat) → Grammar → Grammar → Cursor → List Value → Proc Outcome
  | 0, _, _, _, _ => fun _ _ => none
  | d + 1, p, sep, c, values => do
    .ofEval (checkpoint c.pos)
    match ← eval d sep c with
    | .failure _ => return .success (.list values.reverse) c
    | .success _ after => match ← eval d p after with
      | .failure _ => return .success (.list values.reverse) c
      | .success v next =>
        if next.pos = c.pos then return .success (.list values.reverse) c
        else separatedFrom d p sep next (v :: values)

/-- Goes on with a rule, if the guard of the active run permits it. Outside a run
    nothing stops a rule that goes on with itself. -/
def delegate : (depth : Nat) → Rule → Cursor → Proc Outcome
  | 0, _, _ => fun _ _ => none
  | d + 1, r, c => do
    let g ← .ofEval (resolve runInner r)
    match (← read).scope with
    | none => eval d g c
    | some scope =>
      .ofEval (checkpoint c.pos)
      if scope.guard.isFull then .ofEval (refuse r c.pos)
      else
        let guard := scope.guard.enter
        .ofEval (.emit (.opened r c.pos guard.depth))
        .closing (.closed r) (.within (some { scope with guard := guard }) (eval d g c))
end

end Procedure

/-- Runs a grammar over a source, with calls down to some depth. -/
def runTo (depth : Nat) (g : Grammar) (o : RunOptions) (source : Source) : Proc Outcome := do
  let env ← read
  if o.rejects source.size then
    .ofEval (.raise (.sourceTooLarge source.size o.maxSize))
  let scope ← .ofEval (openScope o.maxDepth o.timeout o.watched)
  .ofEval (.emit (.running (g.name env.ruleName) source.size))
  let outcome ← .closing .ended (.within (some scope)
    (eval env.rules (Grammar.runInner env) depth g (.start source)))
  match outcome.whole o with
  | .success v n => return .success v n
  | .failure f =>
    .ofEval (.emit (.failed (g.name env.ruleName) f.position f.message))
    return .failure f

/-- Runs a grammar over a source. -/
noncomputable def run (g : Grammar) (o : RunOptions) (source : Source) : Proc Outcome :=
  .limit fun depth => runTo depth g o source

/-! ## Agreement -/

section Agreement

variable {α β : Type} {I : Invariant} {x : Nat → Proc α} {y : Eval α}

/-- Under an invariant the procedure settles on what the computation answers. -/
def Agrees (I : Invariant) (x : Nat → Proc α) (y : Eval α) : Prop :=
  ∀ env s, I.holds env s → Settles (fun n => x n env s) (y.run env s)

theorem Agrees.ofEval (y : Eval α) : Agrees I (fun _ => .ofEval y) y := fun _ _ _ => .const _

theorem Agrees.pure (a : α) : Agrees I (fun _ => pure a) (pure a) := fun _ _ _ => .const _

theorem Agrees.succ (h : Agrees I (fun n => x (n + 1)) y) : Agrees I x y :=
  fun env s hs => .succ (h env s hs)

theorem bind_agrees {Q : α → Prop} {f : Nat → α → Proc β} {g : α → Eval β} {env : Env} {s : State}
    (hx : Settles (fun n => x n env s) (y.run env s)) (hy : Eval.Ensures I Q y)
    (hs : I.holds env s)
    (hf : ∀ a s', Q a → I.holds env s' →
      Settles (fun n => f n a env s') ((g a).run env s')) :
    Settles (fun n => (x n >>= f n) env s) ((y >>= g).run env s) := by
  refine Proc.bind_settles hx fun a s' hrun => ?_
  have hy := hy env s hs
  rw [hrun] at hy
  exact hf a s' hy.1 hy.2

theorem Agrees.bind {Q : α → Prop} {f : Nat → α → Proc β} {g : α → Eval β} (hx : Agrees I x y)
    (hy : Eval.Ensures I Q y) (hf : ∀ a, Q a → Agrees I (fun n => f n a) (g a)) :
    Agrees I (fun n => x n >>= f n) (y >>= g) :=
  fun env s hs => bind_agrees (hx env s hs) hy hs fun a s' ha hs' => hf a ha env s' hs'

end Agreement

/-! ## Grammars -/

section Grammars

variable {I : Invariant} {links : Links} {runInner : RunGrammar}

/-- What is known about delegations: they keep the invariant, and the procedure
    does the same as the evaluator. -/
structure Known (I : Invariant) (runInner : RunGrammar) (links : Links) : Prop where
  lawful : I.Lawful
  author : ∀ fn, ¬ I.parts.author fn
  runs : ¬ I.parts.mappingRuns
  sound : links.Sound I
  delegate : ∀ r c, I.parts.rule r →
    Agrees I (fun n => delegate I.rules runInner n r c) (links.delegate r c)

/-- The procedure does the same as the evaluator at every cursor. -/
def Same (I : Invariant) (runInner : RunGrammar) (links : Links) (g : Grammar) : Prop :=
  ∀ c, Agrees I (fun n => eval I.rules runInner n g c) ((g.denote links).fn c)

theorem Known.ensures (h : Known I runInner links) {g : Grammar} (hg : g.Uses I.parts)
    (c : Cursor) : Eval.Ensures I (Yields I.rules g c) ((g.denote links).fn c) :=
  Grammar.sound h.lawful h.author h.sound g hg c

/-- After a grammar that does the same, what follows has to do the same. -/
theorem Known.next (h : Known I runInner links) {g : Grammar} (hsame : Same I runInner links g)
    (hg : g.Uses I.parts) {β : Type} {f : Nat → Outcome → Proc β} {k : Outcome → Eval β}
    {c : Cursor} (hf : ∀ o, Yields I.rules g c o → Agrees I (fun n => f n o) (k o)) :
    Agrees I (fun n => eval I.rules runInner n g c >>= f n) ((g.denote links).fn c >>= k) :=
  .bind (hsame c) (h.ensures hg c) hf

theorem Known.name (h : Known I runInner links) (g : Grammar) :
    (g.denote links).name = g.name I.rules.ruleName := by
  simp [Grammar.denote_name, h.sound.ruleName]

theorem evalFirst_agrees (h : Known I runInner links) {gs : List Grammar}
    (hgs : ∀ g ∈ gs, g.Uses I.parts ∧ Same I runInner links g) (failed : List Failure)
    (c : Cursor) :
    Agrees I (fun n => evalFirst I.rules runInner n failed gs c)
      (Parser.tryEach failed (gs.map (·.denote links)) c) := by
  induction gs generalizing failed with
  | nil =>
    refine .succ ?_
    simp only [evalFirst]
    exact .ofEval _
  | cons g gs ih =>
    refine .succ ?_
    simp only [evalFirst]
    obtain ⟨hg, hsame⟩ := hgs g List.mem_cons_self
    refine h.next hsame hg fun o _ => ?_
    cases o with
    | success v n => exact .pure _
    | failure f => exact ih (fun g' hg' => hgs g' (List.mem_cons_of_mem g hg')) (f :: failed)

theorem evalSeq_agrees (h : Known I runInner links) {gs : List Grammar}
    (hgs : ∀ g ∈ gs, g.Uses I.parts ∧ Same I runInner links g) (index : Nat)
    (values : List Value) (c : Cursor) :
    Agrees I (fun n => evalSeq I.rules runInner n index values gs c)
      (Parser.seqFrom index values (gs.map (·.denote links)) c) := by
  induction gs generalizing index values c with
  | nil =>
    refine .succ ?_
    simp only [evalSeq]
    exact .pure _
  | cons g gs ih =>
    refine .succ ?_
    simp only [evalSeq]
    obtain ⟨hg, hsame⟩ := hgs g List.mem_cons_self
    refine h.next hsame hg fun o _ => ?_
    cases o with
    | failure f => exact .pure _
    | success v n =>
      exact ih (fun g' hg' => hgs g' (List.mem_cons_of_mem g hg')) (index + 1) (v :: values) n

/-- A round that moves leaves less of the source, so the loop ends. -/
theorem repeatFrom_agrees (h : Known I runInner links) {p : Grammar}
    (hsame : Same I runInner links p) (hp : p.Uses I.parts) (c : Cursor) (values : List Value) :
    Agrees I (fun n => repeatFrom I.rules runInner n p c values)
      ((p.denote links).repeatFrom c values) := by
  induction hr : c.remaining using Nat.strongRecOn generalizing c values with
  | ind r ih =>
    subst hr
    rw [Parser.repeatFrom_eq, h.name]
    refine .succ ?_
    simp only [repeatFrom]
    refine .bind (.ofEval _) (.checkpoint h.lawful _) fun _ _ => ?_
    refine h.next hsame hp fun o ho => ?_
    cases o with
    | failure f => exact .pure _
    | success v next =>
      have hmoves := ho.onward.remaining_lt_iff
      by_cases hpos : next.pos = c.pos
      · have hlt : ¬ next.remaining < c.remaining := fun hlt => hmoves.1 hlt hpos
        simp only [if_pos hpos, if_neg hlt]
        exact .bind (.ofEval _) (.emit h.lawful rfl) fun _ _ => .pure _
      · have hlt : next.remaining < c.remaining := hmoves.2 hpos
        simp only [if_neg hpos, if_pos hlt]
        exact ih next.remaining hlt next (v :: values) rfl

theorem separatedFrom_agrees (h : Known I runInner links) {p sep : Grammar}
    (hp : p.Uses I.parts) (hsep : sep.Uses I.parts) (hsame : Same I runInner links p)
    (hsame' : Same I runInner links sep) (c : Cursor) (values : List Value) :
    Agrees I (fun n => separatedFrom I.rules runInner n p sep c values)
      ((p.denote links).separatedFrom (sep.denote links) c values) := by
  induction hr : c.remaining using Nat.strongRecOn generalizing c values with
  | ind r ih =>
    subst hr
    rw [Parser.separatedFrom_eq]
    refine .succ ?_
    simp only [separatedFrom]
    refine .bind (.ofEval _) (.checkpoint h.lawful _) fun _ _ => ?_
    refine h.next hsame' hsep fun o ho => ?_
    cases o with
    | failure f => exact .pure _
    | success w after =>
      refine h.next hsame hp fun o ho' => ?_
      cases o with
      | failure f => exact .pure _
      | success v next =>
        have hmoves := (ho.onward.trans ho'.onward).remaining_lt_iff
        by_cases hpos : next.pos = c.pos
        · have hlt : ¬ next.remaining < c.remaining := fun hlt => hmoves.1 hlt hpos
          simp only [if_pos hpos, if_neg hlt]
          exact .pure _
        · have hlt : next.remaining < c.remaining := hmoves.2 hpos
          simp only [if_neg hpos, if_pos hlt]
          exact ih next.remaining hlt next (v :: values) rfl

/-- Every parser of a grammar does the same, if delegations do. -/
theorem Known.same (h : Known I runInner links) (g : Grammar) (hg : g.Uses I.parts) :
    Same I runInner links g := by
  induction g with
  | char | literal | satisfy | eof | spaces =>
    intro c
    refine .succ ?_
    simp only [eval]
    exact .ofEval _
  | either a b ha hb =>
    intro c
    refine .succ ?_
    simp only [eval]
    refine h.next (ha hg.1) hg.1 fun o _ => ?_
    cases o with
    | success v n => exact .pure _
    | failure f =>
      refine h.next (hb hg.2) hg.2 fun o _ => ?_
      cases o with
      | success v n => exact .pure _
      | failure f' => exact .ofEval _
  | choice p ps hp hps =>
    intro c
    refine .succ ?_
    simp only [eval, Grammar.denote, Grammar.denoteAll_eq_map]
    exact evalFirst_agrees h (Grammar.forall_of_uses hg hp hps) [] c
  | both a b ha hb =>
    intro c
    refine .succ ?_
    simp only [eval]
    refine h.next (ha hg.1) hg.1 fun o _ => ?_
    cases o with
    | failure f => exact .pure _
    | success v n => exact hb hg.2 c
  | absent p hp =>
    intro c
    refine .succ ?_
    simp only [eval]
    refine h.next (hp hg) hg fun o _ => ?_
    cases o with
    | failure f => exact .pure _
    | success v n =>
      simp only [h.name]
      exact .pure _
  | seq p ps hp hps =>
    intro c
    refine .succ ?_
    simp only [eval, Grammar.denote, Grammar.denoteAll_eq_map]
    exact evalSeq_agrees h (Grammar.forall_of_uses hg hp hps) 0 [] c
  | between o p q ho hp hq =>
    intro c
    refine .succ ?_
    simp only [eval]
    refine h.next (ho hg.1) hg.1 fun r _ => ?_
    cases r with
    | failure f => exact .pure _
    | success u n₁ =>
      refine h.next (hp hg.2.1) hg.2.1 fun r _ => ?_
      cases r with
      | failure f => exact .pure _
      | success v n₂ =>
        refine h.next (hq hg.2.2) hg.2.2 fun r _ => ?_
        cases r with
        | failure f => exact .pure _
        | success w n₃ => exact .pure _
  | many p hp =>
    intro c
    refine .succ ?_
    simp only [eval]
    have hsound : p.Sound I links := h.ensures hg
    have hloop := Parser.repeatFrom_ensures h.lawful hsound c []
    exact .bind (repeatFrom_agrees h (hp hg) hg c []) hloop fun r _ => .pure _
  | many1 p hp =>
    intro c
    refine .succ ?_
    simp only [eval]
    have hsound : p.Sound I links := h.ensures hg
    have hloop := Parser.repeatFrom_ensures h.lawful hsound c []
    refine .bind (repeatFrom_agrees h (hp hg) hg c []) hloop fun r _ => ?_
    obtain ⟨values, stop, ended⟩ := r
    rw [h.name]
    cases values with
    | cons v vs => exact .pure _
    | nil => cases ended <;> exact .pure _
  | optional p hp =>
    intro c
    refine .succ ?_
    simp only [eval]
    refine h.next (hp hg) hg fun o _ => ?_
    cases o with
    | success v n => exact .pure _
    | failure f => exact .pure _
  | sepBy p sep hp hsep =>
    intro c
    refine .succ ?_
    simp only [eval]
    refine h.next (hp hg.1) hg.1 fun o _ => ?_
    cases o with
    | failure f => exact .pure _
    | success v n => exact separatedFrom_agrees h hg.1 hg.2 (hp hg.1) (hsep hg.2) n [v]
  | sepBy1 p sep hp hsep =>
    intro c
    refine .succ ?_
    simp only [eval]
    refine h.next (hp hg.1) hg.1 fun o _ => ?_
    cases o with
    | failure f => exact .pure _
    | success v n => exact separatedFrom_agrees h hg.1 hg.2 (hp hg.1) (hsep hg.2) n [v]
  | token p hp =>
    intro c
    refine .succ ?_
    simp only [eval]
    refine h.next (hp hg) hg fun o _ => ?_
    cases o with
    | failure f => exact .pure _
    | success v n => exact .pure _
  | map p fn hp =>
    intro c
    refine .succ ?_
    simp only [eval]
    refine h.next (hp hg.1) hg.1 fun o _ => ?_
    cases o with
    | failure f => exact .pure _
    | success v n =>
      have hraises : ∀ e, fn v = .fault e → I.parts.Raises e :=
        fun e he => .inr ⟨fn, v, hg.2, he⟩
      simp only [h.name]
      exact .bind (.ofEval _) (Reply.toValue_ensures h.lawful hraises _) fun w _ => .pure _
  | mapRun p options inner => exact absurd hg.1 h.runs
  | named name p hp =>
    intro c
    refine .succ ?_
    simp only [eval]
    exact hp hg c
  | ref r =>
    intro c
    refine .succ ?_
    simp only [eval]
    exact h.delegate r c hg
  | mark label p hp =>
    intro c
    refine .succ ?_
    simp only [eval]
    exact .bind (.ofEval _) (.emit h.lawful rfl) fun _ _ => hp hg c
  | author name fn => exact absurd hg (h.author fn)

end Grammars

/-! ## Delegations -/

section Delegations

variable {rules : Rules} {parts : Parts} {guard : Guard} {s₀ : State} {runInner : RunGrammar}

/-- Each delegation that is opened leaves one less to be opened, so delegations
    end. -/
theorem known (hauthor : ∀ fn, ¬ parts.author fn) (hruns : ¬ parts.mappingRuns)
    (hrules : rules.Use parts) (hrun : runInner.Grows rules parts) {n : Nat}
    (hn : guard.allowance = n) (hdepth : guard.depth ≤ max 0 guard.limit) (s₀ : State) :
    Known (.guarded rules parts guard s₀) runInner (rules.links runInner n) := by
  have hI := Invariant.guarded_lawful rules parts
  induction n generalizing guard s₀ with
  | zero =>
    have hsound := Rules.links_guarded hauthor hruns hrules hrun hn hdepth s₀
    have hfull : guard.isFull = true := guard.allowance_eq_zero_iff.1 hn
    refine ⟨hI _ _, hauthor, hruns, hsound, fun r c hr => ?_⟩
    refine .succ ?_
    simp only [delegate]
    refine .bind (.ofEval _) (resolve_ensures (hI _ _) hrun hrules hr) fun g _ => ?_
    rintro env s ⟨hgrown, scope, hscope, rfl⟩
    have hs : (Invariant.guarded rules parts scope.guard s₀).holds env s :=
      ⟨hgrown, scope, hscope, rfl⟩
    simp only [Proc.read_bind, hscope, hfull, if_true]
    exact bind_agrees (.const _) (.checkpoint (hI _ _) _) hs fun _ _ _ _ => .const _
  | succ n ih =>
    have hsound := Rules.links_guarded hauthor hruns hrules hrun hn hdepth s₀
    have hfull : guard.isFull = false := by
      rw [Bool.eq_false_iff, ne_eq, ← guard.allowance_eq_zero_iff, hn]
      nofun
    refine ⟨hI _ _, hauthor, hruns, hsound, fun r c hr => ?_⟩
    refine .succ ?_
    simp only [delegate]
    refine .bind (.ofEval _) (resolve_ensures (hI _ _) hrun hrules hr) fun g hg => ?_
    rintro env s ⟨hgrown, scope, hscope, rfl⟩
    have hs : (Invariant.guarded rules parts scope.guard s₀).holds env s :=
      ⟨hgrown, scope, hscope, rfl⟩
    simp only [Proc.read_bind, hscope, hfull, Bool.false_eq_true, if_false]
    refine bind_agrees (.const _) (.checkpoint (hI _ _) _) hs fun _ s' _ hs' => ?_
    obtain ⟨hn', hdepth'⟩ := Guard.enter_of_allowance hn
    have hg' : g.Uses parts := (hrules r hr).parser hg
    let s₁ := s'.emit (.opened r c.pos scope.guard.enter.depth)
    let inner : Env := { env with scope := some { scope with guard := scope.guard.enter } }
    have hinner : (Invariant.guarded rules parts scope.guard.enter s₁).holds inner s₁ :=
      ⟨⟨hs'.1.1, .refl hs'.1.2.faithful⟩, _, rfl, rfl⟩
    rw [run_deeper hscope]
    exact Proc.closing_settles ((ih hn' hdepth' s₁).same g hg' c inner s₁ hinner) _

end Delegations

end Unbounded

/-! ## Runs -/

/-- Every run ends, with the answer and in the state of the evaluator. -/
theorem Grammar.run_ends (parts : Parts) (hauthor : ∀ fn, ¬ parts.author fn)
    (hruns : ¬ parts.mappingRuns) {env : Env} (hrules : env.rules.Use parts) {g : Grammar}
    (hg : g.Uses parts) {s : State} (hs : s.Faithful env.rules) (o : RunOptions)
    (source : Source) :
    Unbounded.run g o source env s = some ((g.run o source).run env s) := by
  have hI := Invariant.grown_lawful env.rules parts s
  have hholds := Invariant.grown_holds hs parts
  have hname : (g.parser env o.allowance).name = g.name env.ruleName := Grammar.denote_name _ g
  rw [Grammar.run_run]
  refine Proc.limit_eq_some ?_
  simp only [Unbounded.runTo, Parser.run, hname, Proc.read_bind]
  cases hrejects : o.rejects source.size with
  | true =>
    simp only [if_true]
    exact .const _
  | false =>
    simp only [Bool.false_eq_true, if_false]
    refine Unbounded.bind_agrees (.const _) (openScope_ensures hI _ _ _) hholds ?_
    intro scope s₁ hscope hs₁
    refine Unbounded.bind_agrees (.const _) (.emit hI rfl) hs₁ fun _ s₂ _ hs₂ => ?_
    have hbody := Grammar.parser_sound hauthor hrules hg o.allowance (.start source) s
    refine Unbounded.bind_agrees ?_ (.closing rfl (.within (some scope) hbody)) hs₂ ?_
    · have hdepth : scope.guard.depth ≤ max 0 scope.guard.limit := by
        rw [hscope]
        exact Int.le_max_left 0 _
      have hallowance : scope.guard.allowance = o.allowance := by
        rw [hscope]
        rfl
      have hknown := Unbounded.known hauthor hruns hrules
        (Grammar.runNested_grows hauthor hrules stackLimit) hallowance hdepth s₂
      let inner : Env := { env with scope := some scope }
      have hinner : (Invariant.guarded env.rules parts scope.guard s₂).holds inner s₂ :=
        ⟨⟨rfl, .refl hs₂.2.faithful⟩, scope, rfl, rfl⟩
      exact Proc.closing_settles (hknown.same g hg (.start source) inner s₂ hinner) .ended
    · intro outcome s₃ _ _
      cases outcome.whole o with
      | success v n => exact .const _
      | failure f =>
        simp only [Parser.conclude, hname]
        exact .const _

/-- A rule that begins with itself. -/
def Rules.leftRecursive : Rules := fun _ => {
  name := "left"
  body := .grammar (.either (.ref "left") (.char 'x')) }

theorem Grammar.run_ends_leftRecursive :
    (Unbounded.run (.ref "left") { maxDepth := 3 } #['x'] { rules := .leftRecursive } {}).map
      (·.1) = some (.error (.depth 3 "left" 0)) := by
  let env : Env := { rules := .leftRecursive }
  have hrules : env.rules.Use .bare := fun _ _ => ⟨trivial, trivial⟩
  have hg : Grammar.Uses .bare (.ref "left") := trivial
  have hs : State.Faithful env.rules {} := State.faithful_init _
  rw [Grammar.run_ends .bare (fun _ => id) id hrules hg hs { maxDepth := 3 } #['x']]
  rfl

/-- Outside a run there is no guard, and nothing stops that rule. -/
theorem Unbounded.delegate_leftRecursive (runInner : RunGrammar) (c : Cursor) {env : Env}
    {s : State} (hscope : env.scope = none)
    (hbuilt : s.cells "left" = .built (.either (.ref "left") (.char 'x'))) :
    Proc.limit (fun depth => delegate .leftRecursive runInner depth "left" c) env s = none := by
  have hresolve : (resolve runInner "left").run env s =
      (.ok (.either (.ref "left") (.char 'x')), s) := by
    simp only [resolve, Eval.run_bind, Eval.run_get, hbuilt, Eval.run_pure]
  have hbody (d : Nat) : delegate .leftRecursive runInner (d + 1) "left" c env s =
      eval .leftRecursive runInner d (.either (.ref "left") (.char 'x')) c env s := by
    simp only [delegate]
    simp [Proc.ofEval_bind_of_ok hresolve, Proc.read_bind, hscope]
  have hnone (depth : Nat) : delegate .leftRecursive runInner depth "left" c env s = none := by
    induction depth using Nat.strongRecOn with
    | ind depth ih =>
      -- The rule, its choice and the first branch are three calls.
      obtain _ | _ | _ | d := depth
      · rfl
      · exact hbody 0
      · rw [hbody]
        exact Proc.bind_of_none rfl
      · rw [hbody]
        simp only [eval]
        exact Proc.bind_of_none (ih d (by omega))
  rw [Proc.limit, dif_neg]
  rintro ⟨v, N, hN⟩
  cases (hnone N).symm.trans (hN N (Nat.le_refl N))

end Descent
