-- SUMMARY: Every written form of a document is read back as that document, unless it nests too deeply.
import Descent.Grammar.Document
import Descent.Proofs.MatchedText
import Descent.Proofs.Numerals
import Descent.Proofs.Reading

/-! # Round trip

A document has many written forms, which differ in the blanks around its values. A run
of the data format reads each of them back as the document when its arrays are nested
no more deeply than the limit on delegations allows, and is stopped by that limit when
they are: `Document.run_written`.

An array opens one delegation, in which its items are read one after the other. The
array without items opens it too, in the attempt to read a first one. -/

namespace Descent

/-! ## Documents and their written forms -/

namespace Data

mutual
/-- How deeply arrays are nested in one another. A document holds no objects. -/
def depth : Data → Nat
  | .array items => depths items + 1
  | _ => 0

/-- The greatest depth of several data. -/
def depths : List Data → Nat
  | [] => 0
  | d :: ds => max d.depth (depths ds)
end

end Data

namespace Document

/-- What is written of a document: a value, or the items of an array from some item on,
    with a comma before each. -/
inductive Part
  | value (d : Data)
  | more (items : List Data)

/-- The written forms of the parts of documents. There may be blanks after the opening
    bracket, after each comma and after each item. -/
inductive Written : Part → List Char → Prop
  | int {n : Int} : (Digits.decimal n.natAbs).length ≤ Mapping.maxDigits →
      Written (.value (.int n)) (decimalText n).toList
  | text {s : String} : '"' ∉ s.toList →
      Written (.value (.text s)) ('"' :: s.toList ++ ['"'])
  | empty {u : List Char} : Blank u →
      Written (.value (.array [])) ('[' :: u ++ [']'])
  | array {d : Data} {ds : List Data} {u t v ts : List Char} :
      Blank u → Written (.value d) t → Blank v → Written (.more ds) ts →
      Written (.value (.array (d :: ds))) ('[' :: u ++ (t ++ v ++ ts) ++ [']'])
  | done : Written (.more []) []
  | next {d : Data} {ds : List Data} {u t v ts : List Char} :
      Blank u → Written (.value d) t → Blank v → Written (.more ds) ts →
      Written (.more (d :: ds)) (',' :: u ++ (t ++ v ++ ts))

end Document

/-! ## Integers in decimal -/

namespace Mapping

section Integers

variable {s : String} {ds : List Char}

theorem accepts_digits (hne : ds ≠ []) (hds : ∀ ch ∈ ds, ch.isDigit = true) :
    ¬ (ds.isEmpty = true ∨ (!ds.all Char.isDigit) = true) := by
  simpa [hne] using hds

theorem readInt_digits (hs : s.toList = ds) (hne : ds ≠ []) (hds : ∀ ch ∈ ds, ch.isDigit = true)
    (hlength : ds.length ≤ maxDigits) : readInt s = .ok (Digits.value ds) := by
  have hsign : ∀ rest, ds ≠ '-' :: rest := by
    rintro rest rfl
    exact absurd (hds '-' List.mem_cons_self) (by decide)
  unfold readInt
  rw [hs]
  split
  rename_i heq
  split at heq
  · exact absurd rfl (hsign _)
  · cases heq
    rw [if_neg (accepts_digits hne hds), if_neg (Nat.not_lt.2 hlength)]
    rfl

theorem readInt_minus (hs : s.toList = '-' :: ds) (hne : ds ≠ [])
    (hds : ∀ ch ∈ ds, ch.isDigit = true) (hlength : ds.length ≤ maxDigits) :
    readInt s = .ok (-Digits.value ds) := by
  have hread : readInt s =
      if ds.isEmpty = true ∨ (!ds.all Char.isDigit) = true then .error (.notInteger s)
      else if maxDigits < ds.length then .error (.integerTooLong ds.length)
      else .ok (-(Digits.value ds : Int)) := by
    unfold readInt
    rw [hs]
    rfl
  rw [hread, if_neg (accepts_digits hne hds), if_neg (Nat.not_lt.2 hlength)]

/-- The decimal text of an integer reads as that integer. -/
theorem readInt_decimalText {n : Int} (hs : s.toList = (decimalText n).toList)
    (hlength : (Digits.decimal n.natAbs).length ≤ maxDigits) : readInt s = .ok n := by
  have hne := Digits.decimal_ne_nil n.natAbs
  have hds := Digits.isDigit_decimal n.natAbs
  unfold decimalText at hs
  split at hs
  · rename_i hneg
    rw [readInt_minus (by simpa using hs) hne hds hlength, Digits.value_decimal]
    congr 1
    omega
  · rename_i hnonneg
    rw [readInt_digits (by simpa using hs) hne hds hlength, Digits.value_decimal]
    congr 1
    omega

end Integers

end Mapping

/-! ## The parsers of the format -/

namespace Document

/-- The parts of the format that can be used at all. -/
def parts : Parts where
  rule := fun r => r = "value"

/-- The situations in which only the depth limit can stop a run of the format. -/
abbrev Free : Env → State → Prop := Unhindered rules parts

section Scalars

variable {links : Links} {ch : Char} {cs after : List Char}

theorem number_rejects (hminus : ch ≠ '-') (hdigit : ch.isDigit = false) :
    (number.denote links).Rejects Free (ch :: cs) := by
  have hsign : (Parser.char '-').Rejects Free (ch :: cs) := Parser.rejects_char_cons hminus
  have hdigits : (digit.denote links).Rejects Free (ch :: cs) :=
    Parser.rejects_satisfy "digit" (stops_cons.2 hdigit)
  exact (hdigits.many1.pair hsign.optional).map Mapping.int

theorem digits_read {ds : List Char} (hne : ds ≠ []) (hds : ∀ ch ∈ ds, ch.isDigit = true)
    (hafter : Stops Char.isDigit after) :
    (digit.denote links).many1.Reads Free (· = .list (ds.map .letter)) ds after :=
  Parser.reads_many1 (fun ch hch cs => Parser.reads_satisfy "digit" (hds ch hch) cs)
    (Parser.rejects_satisfy "digit" hafter) hne

/-- The text of a sign and of digits is the text of the integer. -/
theorem int_of_decimalText {n : Int} {sign v : Value}
    (hlength : (Digits.decimal n.natAbs).length ≤ Mapping.maxDigits)
    (hsign : sign.text.toList ++ Digits.decimal n.natAbs = (decimalText n).toList)
    (hv : ∃ a b, v = .list [a, b] ∧ a = sign ∧ b = .list ((Digits.decimal n.natAbs).map .letter)) :
    ∃ w, Mapping.int v = .value w ∧ w.toData = .int n := by
  obtain ⟨_, _, rfl, rfl, rfl⟩ := hv
  refine ⟨.node (.int n), ?_, rfl⟩
  rw [Mapping.int, Mapping.readInt_decimalText ?_ hlength]
  rw [Value.text_cons, Value.text_single, String.toList_append, Value.toList_text_letters, hsign]

theorem number_reads {n : Int} (hlength : (Digits.decimal n.natAbs).length ≤ Mapping.maxDigits)
    (hafter : Stops Char.isDigit after) :
    (number.denote links).Reads Free (·.toData = .int n) (decimalText n).toList after := by
  obtain ⟨ch, ds, heq, hdigit⟩ := Digits.exists_decimal_eq_cons n.natAbs
  have hread : (digit.denote links).many1.Reads Free
      (· = .list ((Digits.decimal n.natAbs).map .letter)) (Digits.decimal n.natAbs) after :=
    digits_read (Digits.decimal_ne_nil _) (Digits.isDigit_decimal _) hafter
  by_cases hneg : n < 0
  · have htext : (decimalText n).toList = ['-'] ++ Digits.decimal n.natAbs := by
      simp [decimalText, hneg]
    have hpair := (Parser.reads_char '-' _).optional.pair hread
    rw [htext]
    exact hpair.map fun _ => int_of_decimalText hlength htext.symm
  · have htext : (decimalText n).toList = [] ++ Digits.decimal n.natAbs := by
      simp [decimalText, hneg]
    have hsign : (Parser.char '-').Rejects Free (Digits.decimal n.natAbs ++ after) := by
      rw [heq]
      refine Parser.rejects_char_cons ?_
      rintro rfl
      exact absurd hdigit (by decide)
    have hpair := hsign.optional.pair hread
    rw [htext]
    exact hpair.map fun _ => int_of_decimalText hlength htext.symm

theorem string_rejects (h : ch ≠ '"') : (string.denote links).Rejects Free (ch :: cs) := by
  have hquote : (Parser.char '"').Rejects Free (ch :: cs) := Parser.rejects_char_cons h
  exact (hquote.between _ _).map Mapping.joined

theorem string_reads {s : String} (hs : '"' ∉ s.toList) :
    (string.denote links).Reads Free (·.toData = .text s) ('"' :: s.toList ++ ['"']) after := by
  have htest (ch : Char) : (!("\"".toList.contains ch)) = true ↔ ch ≠ '"' := by
    simp
  have hletters : (Grammar.denote links
      (.many (.satisfy "string character" (.except "\"")))).Reads Free
      (· = .list (s.toList.map .letter)) s.toList (['"'] ++ after) := by
    refine Parser.reads_many (fun ch hch cs => Parser.reads_satisfy _ ?_ cs)
      (Parser.rejects_satisfy _ (stops_cons.2 (by decide)))
    refine (htest ch).2 ?_
    rintro rfl
    exact hs hch
  have hbetween := (Parser.reads_char '"' _).between hletters (Parser.reads_char '"' after)
  refine hbetween.map ?_
  rintro _ rfl
  refine ⟨_, rfl, ?_⟩
  rw [Value.toData, ← String.ofList_toList (s := (Value.list _).text), Value.toList_text_letters]
  simp

end Scalars

/-! ## Nested values -/

theorem rules_value : (rules "value").body = .grammar value := rfl

/-- The parser of a grammar when so many delegations may be opened. -/
abbrev parser (runInner : RunGrammar) (n : Nat) (g : Grammar) : Parser :=
  g.denote (rules.links runInner n)

section Arrays

variable {runInner : RunGrammar} {n : Nat} {ch : Char} {t u cs after : List Char}
  {items : List Data}

theorem array_rejects (h : ch ≠ '[') :
    (parser runInner n array).Rejects Free (ch :: cs) := by
  have hbracket : (Parser.char '[').Rejects Free (ch :: cs) := Parser.rejects_char_cons h
  exact hbracket.token.between _ _

/-- No value starts with a closing bracket. -/
theorem value_rejects : (parser runInner n value).Rejects Free (']' :: cs) := by
  have hstring : (parser runInner n string).Rejects Free (']' :: cs) := string_rejects (by decide)
  have harray : (parser runInner n array).Rejects Free (']' :: cs) := array_rejects (by decide)
  exact (number_rejects (by decide) rfl).choice
    (List.forall_mem_cons.2 ⟨hstring, List.forall_mem_singleton.2 harray⟩)

/-- Neither a number nor a text starts with an opening bracket. -/
theorem scalars_reject : ∀ p ∈ [parser runInner n number, parser runInner n string],
    p.Rejects Free ('[' :: cs) :=
  List.forall_mem_cons.2 ⟨number_rejects (by decide) rfl,
    List.forall_mem_singleton.2 (string_rejects (by decide))⟩

theorem array_reads
    (helements : (parser runInner n elements).Reads Free (·.toData = .array items) t
      (']' :: after))
    (hu : Blank u) (ht : Stops Parser.isBlank (t ++ ']' :: after)) :
    (parser runInner n value).Reads Free (·.toData = .array items)
      ('[' :: u ++ t ++ [']']) after := by
  have harray : (parser runInner n array).Reads Free (·.toData = .array items)
      ('[' :: u ++ (t ++ [']'])) after :=
    (Parser.reads_symbol '[' hu ht).between helements (Parser.reads_char ']' after)
  rw [List.append_assoc]
  exact harray.choice scalars_reject rfl

theorem array_refuses
    (helements : (parser runInner n elements).Refuses Free "value" (t ++ ']' :: after))
    (hu : Blank u) (ht : Stops Parser.isBlank (t ++ ']' :: after)) :
    (parser runInner n value).Refuses Free "value" ('[' :: u ++ t ++ [']'] ++ after) := by
  have harray : (parser runInner n array).Refuses Free "value"
      ('[' :: u ++ (t ++ ']' :: after)) :=
    helements.between (Parser.reads_symbol '[' hu ht) (.char ']')
  rw [List.append_assoc, List.append_assoc]
  exact harray.choice scalars_reject rfl

/-- Even the attempt to read a first item opens a delegation. -/
theorem elements_refuse (cs : List Char) : (parser runInner 0 elements).Refuses Free "value" cs :=
  (Parser.refuses_ref rfl rules_value cs).token.sepBy _

theorem no_elements_read :
    (parser runInner (n + 1) elements).Reads Free (·.toData = .array []) [] (']' :: after) := by
  have hitem : (parser runInner (n + 1) item).Rejects Free (']' :: after) :=
    (value_rejects.ref rfl rules_value).token
  refine (hitem.sepBy _).mono ?_
  rintro _ rfl
  rfl

end Arrays

/-! ### Written parts -/

section Parts

variable {runInner : RunGrammar} {n : Nat} {d : Data} {ds : List Data}
  {t v ts cs after : List Char}

/-- The rounds of an array's items match a text before the closing bracket. -/
abbrev ItemsRead (runInner : RunGrammar) (n : Nat) (ds : List Data) (ts after : List Char) : Prop :=
  Parser.RoundsRead rules parts (parser runInner n item) (Parser.char ',').token
    (fun vs => Value.toDataAll vs = ds) ts (']' :: after)

/-- The rounds of an array's items need more delegations than may be opened. -/
abbrev ItemsRefuse (runInner : RunGrammar) (n : Nat) (ts after : List Char) : Prop :=
  Parser.RoundsRefuse rules parts (parser runInner n item) (Parser.char ',').token "value"
    (ts ++ ']' :: after)

/-- How the parsers treat a written part when so many delegations may be opened. -/
def Part.Handled (runInner : RunGrammar) (n : Nat) : Part → List Char → Prop
  | .value d, t => ∀ after, Stops Char.isDigit after →
      (d.depth ≤ n → (parser runInner n Document.value).Reads Free (·.toData = d) t after) ∧
      (n < d.depth → (parser runInner n Document.value).Refuses Free "value" (t ++ after))
  | .more items, t => ∀ after,
      (Data.depths items < n → ItemsRead runInner n items t after) ∧
      (0 < n → n ≤ Data.depths items → ItemsRefuse runInner n t after)

theorem isDigit_of_isBlank {ch : Char} (h : Parser.isBlank ch = true) : ch.isDigit = false := by
  simp only [Parser.isBlank, Bool.or_eq_true, decide_eq_true_eq] at h
  rcases h with ((rfl | rfl) | rfl) | rfl <;> rfl

/-- A written value does not start with a blank. -/
theorem Written.value_stops (h : Written (.value d) t) (cs : List Char) :
    Stops Parser.isBlank (t ++ cs) := by
  cases h with
  | @int n _ =>
    obtain ⟨ch, ds, heq, hdigit⟩ := Digits.exists_decimal_eq_cons n.natAbs
    have hblank : Parser.isBlank ch = false := by
      by_contra hblank
      rw [isDigit_of_isBlank (Bool.eq_true_of_not_eq_false hblank)] at hdigit
      cases hdigit
    by_cases hneg : n < 0
    · simp [decimalText, hneg, stops_cons, Parser.isBlank]
    · simp [decimalText, hneg, heq, stops_cons, hblank]
  | text | empty | array => exact stops_cons.2 rfl

/-- The items of an array are followed by a comma or the closing bracket. -/
theorem Written.more_stops {test : Char → Bool} (h : Written (.more ds) ts)
    (hcomma : test ',' = false) (hbracket : test ']' = false) (after : List Char) :
    Stops test (ts ++ ']' :: after) := by
  cases h with
  | done => exact stops_cons.2 hbracket
  | next => exact stops_cons.2 hcomma

theorem item_reads (h : ∀ n, (Part.value d).Handled runInner n t) (hd : d.depth < n)
    (hv : Blank v) (hblank : Stops Parser.isBlank cs) (hdigit : Stops Char.isDigit cs) :
    (parser runInner n item).Reads Free (·.toData = d) (t ++ v) cs := by
  obtain ⟨m, rfl⟩ : ∃ m, n = m + 1 := ⟨n - 1, by omega⟩
  have hvalue := (h m (v ++ cs) (hv.stops (fun _ => isDigit_of_isBlank) hdigit)).1
    (Nat.le_of_lt_succ hd)
  exact (hvalue.ref rfl rules_value).token hv hblank

theorem item_refuses (h : ∀ n, (Part.value d).Handled runInner n t) (hd : n ≤ d.depth)
    (hdigit : Stops Char.isDigit cs) :
    (parser runInner n item).Refuses Free "value" (t ++ cs) := by
  cases n with
  | zero => exact (Parser.refuses_ref rfl rules_value _).token
  | succ m => exact (((h m cs hdigit).2 hd).ref rfl rules_value).token

section Items

variable (hd : ∀ n, (Part.value d).Handled runInner n t) (hv : Blank v)
  (hts : Written (.more ds) ts) (hds : (Part.more ds).Handled runInner n ts) (after : List Char)
include hd hv hts hds

theorem items_read (hn : Data.depths (d :: ds) < n) :
    (parser runInner n item).Reads Free (·.toData = d) (t ++ v) (ts ++ ']' :: after) ∧
      ItemsRead runInner n ds ts after := by
  rw [Data.depths, Nat.max_lt] at hn
  refine ⟨item_reads hd hn.1 hv ?_ ?_, (hds after).1 hn.2⟩
  · exact hts.more_stops rfl rfl after
  · exact hts.more_stops rfl rfl after

/-- Either the first item is nested too deeply or some item after it is. -/
theorem items_refused (hn : n ≤ Data.depths (d :: ds)) :
    (parser runInner n item).Refuses Free "value" (t ++ (v ++ (ts ++ ']' :: after))) ∨
      (parser runInner n item).Reads Free (·.toData = d) (t ++ v) (ts ++ ']' :: after) ∧
        ItemsRefuse runInner n ts after := by
  have hdigit : Stops Char.isDigit (ts ++ ']' :: after) := hts.more_stops rfl rfl after
  by_cases hle : n ≤ d.depth
  · exact .inl (item_refuses hd hle (hv.stops (fun _ => isDigit_of_isBlank) hdigit))
  · have hlt : d.depth < n := Nat.lt_of_not_le hle
    refine .inr ⟨item_reads hd hlt hv (hts.more_stops rfl rfl after) hdigit, ?_⟩
    rw [Data.depths] at hn
    exact (hds after).2 (by omega) (by omega)

end Items

/-- Arrays that are nested no more deeply than delegations may be opened are read, and others
    are refused. -/
theorem Written.handled {x : Part} (h : Written x t) (n : Nat) : x.Handled runInner n t := by
  induction h generalizing n with
  | int hlength =>
    intro after hafter
    exact ⟨fun _ => (number_reads hlength hafter).choice (List.forall_mem_nil _) rfl, nofun⟩
  | @text s hs =>
    intro after hafter
    have hnumber : (parser runInner n number).Rejects Free ('"' :: s.toList ++ ['"'] ++ after) :=
      number_rejects (by decide) rfl
    exact ⟨fun _ => (string_reads hs).choice (List.forall_mem_singleton.2 hnumber) rfl, nofun⟩
  | @empty u hu =>
    intro after hafter
    have htext : '[' :: u ++ [']'] = '[' :: u ++ [] ++ [']'] := by rw [List.append_nil]
    have hstop : Stops Parser.isBlank ([] ++ ']' :: after) := stops_cons.2 rfl
    rw [htext]
    cases n with
    | zero => exact ⟨nofun, fun _ => array_refuses (elements_refuse _) hu hstop⟩
    | succ n =>
      refine ⟨fun _ => array_reads no_elements_read hu hstop, fun hn => ?_⟩
      simp [Data.depth, Data.depths] at hn
  | @array d ds u t v ts hu ht hv hts ihd ihts =>
    intro after hafter
    have hblank : Stops Parser.isBlank (t ++ v ++ ts ++ ']' :: after) := by
      simpa only [List.append_assoc] using ht.value_stops _
    refine ⟨fun hn => ?_, fun hn => ?_⟩
    · obtain ⟨hitem, hrounds⟩ := items_read ihd hv hts (ihts n) after (Nat.lt_of_succ_le hn)
      refine array_reads ((hitem.sepBy hrounds).mono ?_) hu hblank
      rintro _ ⟨w, ws, rfl, rfl, rfl⟩
      rfl
    · refine array_refuses ?_ hu hblank
      rcases items_refused ihd hv hts (ihts n) after (Nat.le_of_lt_succ hn) with
        hitem | ⟨hitem, hrounds⟩
      · rw [List.append_assoc, List.append_assoc]
        exact hitem.sepBy _
      · rw [List.append_assoc]
        exact hrounds.sepBy hitem
  | done =>
    intro after
    refine ⟨fun _ => ?_, fun hn hle => ?_⟩
    · have hcomma : (Parser.char ',').Rejects Free (']' :: after) :=
        Parser.rejects_char_cons (by decide)
      refine (Parser.RoundsRead.done hcomma.token).mono ?_
      rintro _ rfl
      rfl
    · exact absurd hn (Nat.not_lt.2 hle)
  | @next d ds u t v ts hu ht hv hts ihd ihts =>
    intro after
    have hcomma : (Parser.char ',').token.Reads Free (· = .letter ',') (',' :: u)
        (t ++ (v ++ (ts ++ ']' :: after))) :=
      Parser.reads_symbol ',' hu (ht.value_stops _)
    refine ⟨fun hn => ?_, fun _ hn => ?_⟩
    · obtain ⟨hitem, hrounds⟩ := items_read ihd hv hts (ihts n) after hn
      rw [← List.append_assoc] at hcomma
      refine (hrounds.more hcomma hitem (List.cons_ne_nil ',' u)).mono ?_
      rintro _ ⟨w, ws, rfl, rfl, rfl⟩
      rfl
    · rw [ItemsRefuse, List.append_assoc, List.append_assoc]
      rcases items_refused ihd hv hts (ihts n) after hn with hitem | ⟨hitem, hrounds⟩
      · rw [List.append_assoc]
        exact .here hitem hcomma
      · rw [← List.append_assoc] at hcomma
        exact hrounds.more hcomma hitem (List.cons_ne_nil ',' u)

theorem Written.whole_reads (h : Written (.value d) t) {u : List Char} (hu : Blank u)
    (hv : Blank v) (hn : d.depth ≤ n) :
    (parser runInner n whole).Reads Free (·.toData = d) (u ++ t ++ v) [] := by
  have hafter : Stops Char.isDigit (v ++ []) :=
    hv.stops (fun _ => isDigit_of_isBlank) (stops_nil _)
  have hvalue : (parser runInner n value).Reads Free (·.toData = d) t (v ++ []) :=
    (h.handled n _ hafter).1 hn
  have hblank : Stops Parser.isBlank (t ++ (v ++ [])) := h.value_stops _
  rw [List.append_assoc]
  exact (Parser.reads_spaces hu hblank).between hvalue (Parser.reads_spaces hv (stops_nil _))

theorem Written.whole_refuses (h : Written (.value d) t) {u : List Char} (hu : Blank u)
    (hv : Blank v) (hn : n < d.depth) :
    (parser runInner n whole).Refuses Free "value" (u ++ t ++ v) := by
  have hafter : Stops Char.isDigit v := by
    simpa using hv.stops (fun _ => isDigit_of_isBlank) (stops_nil _)
  have hvalue : (parser runInner n value).Refuses Free "value" (t ++ v) :=
    (h.handled n v hafter).2 hn
  rw [List.append_assoc]
  exact hvalue.between (Parser.reads_spaces hu (h.value_stops v)) _

end Parts

/-! ## Runs -/

/-- Every written form of a document, with blanks around it, is read back as the document
    if its arrays are nested no more deeply than the limit in force. Otherwise the run is
    stopped by that limit. -/
theorem run_written {d : Data} {t u v : List Char} (h : Written (.value d) t) (hu : Blank u)
    (hv : Blank v) {o : RunOptions} (hsize : o.maxSize ≤ 0) (hdepth : 0 ≤ o.maxDepth)
    (htimeout : o.timeout = none) {env : Env} (hrules : env.rules = rules) {s : State}
    (hcancelled : (o.watched && s.cancelled) = false)
    (hcell : s.cells "value" = .unbuilt ∨ s.cells "value" = .built value) :
    (d.depth ≤ effectiveLimit o.maxDepth →
      ∃ w n, ((whole.run o (u ++ t ++ v).toArray).run env s).1 = .ok (.success w n) ∧
        n.atEnd = true ∧ w.toData = d) ∧
    (effectiveLimit o.maxDepth < d.depth →
      ∃ position, ((whole.run o (u ++ t ++ v).toArray).run env s).1 =
        .error (.depth (effectiveLimit o.maxDepth) "value" position)) := by
  obtain ⟨_, scope, clock⟩ := env
  cases hrules
  have haccepted : o.rejects (u ++ t ++ v).toArray.size = false := by
    refine Bool.eq_false_iff.2 fun hreject => ?_
    have hpos := ((o.rejects_iff _).1 hreject).1
    omega
  have hstart : o.Unhindered parts ⟨rules, scope, clock⟩ s := by
    refine ⟨htimeout, hcancelled, ?_⟩
    rintro _ _ rfl ⟨⟩
    exact hcell
  have hlimit : 0 ≤ effectiveLimit o.maxDepth := Int.le_min.2 ⟨hdepth, by decide⟩
  have hallowance : (o.allowance : Int) = effectiveLimit o.maxDepth := by
    simp only [RunOptions.allowance, Guard.ofRequested, Guard.allowance]
    omega
  rw [Grammar.run_run, ← hallowance]
  refine ⟨fun hle => ?_, fun hlt => ?_⟩
  · exact (h.whole_reads hu hv (by omega)).run hstart haccepted
  · rw [hallowance]
    exact (h.whole_refuses hu hv (by omega)).run hstart haccepted

/-- An array is read where one delegation may be opened, but not an array in an array. -/
theorem run_written_array :
    (∃ w n, ((whole.run { maxSize := 0, maxDepth := 1 }
        #[' ', '[', '\n', '-', '7', ',', '"', 'a', '"', ' ', ']']).run { rules := rules } {}).1 =
          .ok (.success w n) ∧ n.atEnd = true ∧ w.toData = .array [.int (-7), .text "a"]) ∧
    ∃ position, ((whole.run { maxSize := 0, maxDepth := 1 } #['[', '[', ']', ']']).run
      { rules := rules } {}).1 = .error (.depth 1 "value" position) := by
  let o : RunOptions := { maxSize := 0, maxDepth := 1 }
  let env : Env := { rules := rules }
  have hsize : o.maxSize ≤ 0 := Int.le_refl 0
  have hdepth : 0 ≤ o.maxDepth := by decide
  have hrules : env.rules = rules := rfl
  have hnil : Blank [] := nofun
  have hspace : Blank [' '] := List.forall_mem_singleton.2 rfl
  have hline : Blank ['\n'] := List.forall_mem_singleton.2 rfl
  constructor
  · have hdigits : Digits.decimal 7 = ['7'] := by
      rw [Digits.decimal]
      rfl
    have hint : Written (.value (.int (-7))) ['-', '7'] := by
      have htext : (decimalText (-7)).toList = ['-', '7'] := by
        simp [decimalText, hdigits]
      have hlength : (Digits.decimal 7).length ≤ Mapping.maxDigits := by
        rw [hdigits]
        decide
      rw [← htext]
      exact .int hlength
    have htext : Written (.value (.text "a")) ['"', 'a', '"'] := .text (by decide)
    have hitems := Written.array hline hint hnil (.next hnil htext hspace .done)
    have hrun := run_written hitems hspace hnil hsize hdepth rfl hrules (s := {}) rfl (.inl rfl)
    exact hrun.1 (by decide)
  · have hitems := Written.array hnil (.empty hnil) hnil .done
    have hrun := run_written hitems hnil hnil hsize hdepth rfl hrules (s := {}) rfl (.inl rfl)
    exact hrun.2 (by decide)

end Document

end Descent
