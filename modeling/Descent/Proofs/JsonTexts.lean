-- SUMMARY: Objects are written as one line of JSON text that decodes to their fields and nothing else.
import Descent.Proofs.JsonTokens
import Descent.Proofs.Legible

/-! # Written JSON texts

A character of a text is read back from its escaped form, whatever comes after it, and so are
texts, numbers and lists of texts: a number ends because no digit follows it. An object
therefore decodes to its fields and to nothing else: `Json.decodes_render`. All control
characters are escaped, so an object is written on a single line: `Json.OneLine.render`. -/

namespace Descent

namespace Json

/-! ## Characters and texts -/

theorem hexDigit?_toChar {d : Nat} (h : d < 16) : hexDigit? (Digits.toChar d) = some d := by
  have hall : ∀ d < 16, hexDigit? (Digits.toChar d) = some d := by decide
  exact hall d h

theorem codeUnit?_fixed {n : Nat} (h : n < 0x10000) (rest : List Char) :
    codeUnit? (Digits.fixed 16 4 n ++ rest) = some (n, rest) := by
  have hdigits : Digits.fixed 16 4 n = [Digits.toChar (n / 16 / 16 / 16 % 16),
      Digits.toChar (n / 16 / 16 % 16), Digits.toChar (n / 16 % 16), Digits.toChar (n % 16)] := rfl
  have hmod (m : Nat) : m % 16 < 16 := Nat.mod_lt m (by decide)
  rw [hdigits]
  simp only [List.cons_append, List.nil_append, codeUnit?, hexDigit?_toChar (hmod _),
    Option.bind_eq_bind, Option.bind_some, Option.pure_def]
  exact congrArg (fun m => some (m, rest)) (by omega)

theorem char?_self {c : Char} (hc : ¬ (c = '"' ∨ c = '\\' ∨ c.toNat < 0x20)) (rest : List Char) :
    char? (c :: rest) = some (c, rest) := by
  unfold char?
  split
  · rename_i heq
    cases heq
  · rename_i heq
    cases heq
    exact absurd (.inr (.inl rfl)) hc
  · rename_i heq
    cases heq
    exact absurd (.inr (.inl rfl)) hc
  · rename_i heq
    cases heq
    exact if_neg hc

/-- A character that is written by its number. -/
theorem char?_fixed {c : Char} (hc : c.toNat < 0x20) (rest : List Char) :
    char? ('\\' :: 'u' :: Digits.fixed 16 4 c.toNat ++ rest) = some (c, rest) := by
  have hunit := codeUnit?_fixed (Nat.lt_trans hc (by decide)) rest
  have hscalar : c.toNat < 0xd800 ∨ 0xe000 ≤ c.toNat := .inl (Nat.lt_trans hc (by decide))
  change codePoint? (Digits.fixed 16 4 c.toNat ++ rest) = some (c, rest)
  rw [codePoint?, hunit, Option.bind_eq_bind, Option.bind_some]
  dsimp only
  rw [if_pos hscalar, Char.ofNat_toNat]
  rfl

/-- An escaped character is read back. -/
theorem char?_escape (c : Char) (rest : List Char) : char? (escape c ++ rest) = some (c, rest) := by
  unfold escape
  split_ifs with hmark hfeed hreturn htab hback hform hcontrol
  · rcases hmark with rfl | rfl <;> rfl
  · rw [hfeed]
    rfl
  · rw [hreturn]
    rfl
  · rw [htab]
    rfl
  · rw [hback]
    rfl
  · rw [hform]
    rfl
  · exact char?_fixed hcontrol rest
  · exact char?_self (by tauto) rest

theorem chars?_escape (cs rest : List Char) :
    chars? (cs.flatMap escape ++ '"' :: rest) = some (cs, rest) := by
  induction cs with
  | nil =>
    rw [chars?]
    rfl
  | cons c cs ih =>
    rw [List.flatMap_cons, List.append_assoc, chars?]
    split
    · rename_i heq
      rw [char?_escape] at heq
      cases heq
      rw [ih]
      rfl
    · rename_i heq
      rw [char?_escape] at heq
      cases heq

/-! ## Tokens -/

variable {rest : List Char} {ts : List Token}

theorem lex_string (s : String) (h : lex rest = some ts) :
    lex ((string s).toList ++ rest) = some (.text s :: ts) := by
  have hchars : (string s).toList ++ rest = '"' :: (s.toList.flatMap escape ++ '"' :: rest) := by
    simp [string]
  have htoken := token?_quote (chars?_escape s.toList rest)
  rw [String.ofList_toList] at htoken
  rw [hchars]
  exact lex_token rfl htoken h

/-- A number ends where no digit follows. -/
def NoDigit (cs : List Char) : Prop := ∀ c ∈ cs.head?, c.isDigit = false

theorem number?_decimal (n : Nat) (hrest : NoDigit rest) :
    number? (Digits.decimal n ++ rest) = some (n, rest) := by
  have hstop : rest.takeWhile Char.isDigit = [] ∧ rest.dropWhile Char.isDigit = rest := by
    cases rest with
    | nil => exact ⟨rfl, rfl⟩
    | cons c rest =>
      have hc : ¬ c.isDigit = true := Bool.eq_false_iff.1 (hrest c rfl)
      exact ⟨List.takeWhile_cons_of_neg hc, List.dropWhile_cons_of_neg hc⟩
  have hdigits := Digits.isDigit_decimal n
  have hzeros : ¬ (Digits.decimal n = [] ∨
      ((Digits.decimal n).head? = some '0' ∧ Digits.decimal n ≠ ['0'])) := by
    rintro (hnil | ⟨hhead, hne⟩)
    · exact Digits.decimal_ne_nil n hnil
    · rw [Digits.eq_zero_of_head_decimal hhead] at hne
      exact hne (by rw [Digits.decimal]; rfl)
  unfold number?
  dsimp only
  rw [List.takeWhile_append_of_pos hdigits, List.dropWhile_append_of_pos hdigits, hstop.1, hstop.2,
    List.append_nil, if_neg hzeros, Digits.value_decimal]

theorem lex_decimalText (n : Int) (hrest : NoDigit rest) (h : lex rest = some ts) :
    lex ((decimalText n).toList ++ rest) = some (.int n :: ts) := by
  have hnumber := number?_decimal n.natAbs hrest
  unfold decimalText
  split
  · rename_i hneg
    have hchars : ("-" ++ String.ofList (Digits.decimal n.natAbs)).toList ++ rest =
        '-' :: (Digits.decimal n.natAbs ++ rest) := by
      simp
    have hvalue : -(n.natAbs : Int) = n := by omega
    have htoken := token?_minus hnumber
    rw [hvalue] at htoken
    rw [hchars]
    exact lex_token rfl htoken h
  · rename_i hnonneg
    have hvalue : (n.natAbs : Int) = n := by omega
    obtain ⟨c, cs, heq, hc⟩ := Digits.exists_decimal_eq_cons n.natAbs
    rw [heq, List.cons_append] at hnumber
    have htoken := token?_digit hc hnumber
    rw [hvalue] at htoken
    rw [String.toList_ofList, heq, List.cons_append]
    exact lex_token (isBlank_of_isDigit hc) htoken h

/-- Items with commas between them, up to the end of their list. -/
theorem lex_intercalate {α : Type} {text : α → String} {spell : α → List Token}
    {t : Token} (close : Char) (row : List Token → List α → List Token)
    (hclose : ∀ {rest ts}, lex rest = some ts → lex (close :: rest) = some (t :: ts))
    (hdigit : close.isDigit = false) (hnil : ∀ lead, row lead [] = [t])
    (hcons : ∀ lead x xs, row lead (x :: xs) = lead ++ (spell x ++ row [.comma] xs))
    (hitem : ∀ x {rest ts}, NoDigit rest → lex rest = some ts →
      lex ((text x).toList ++ rest) = some (spell x ++ ts))
    (xs : List α) (h : lex rest = some ts) :
    lex ((", ".intercalate (xs.map text)).toList ++ close :: rest) = some (row [] xs ++ ts) := by
  induction xs with
  | nil =>
    rw [hnil]
    exact hclose h
  | cons x xs ih =>
    cases xs with
    | nil =>
      have hend : NoDigit (close :: rest) := by
        rintro _ ⟨⟩
        exact hdigit
      rw [List.map_cons, List.map_nil, String.intercalate_singleton, hcons, hnil,
        List.nil_append, List.append_assoc]
      exact hitem x hend (hclose h)
    | cons y ys =>
      have hrow : row [.comma] (y :: ys) = .comma :: row [] (y :: ys) := by
        rw [hcons, hcons]
        rfl
      have htext : (", ".intercalate ((x :: y :: ys).map text)).toList ++ close :: rest =
          (text x).toList ++ ',' :: ' ' ::
            ((", ".intercalate ((y :: ys).map text)).toList ++ close :: rest) := by
        rw [List.map_cons, List.map_cons, String.intercalate_cons_of_ne_nil (List.cons_ne_nil _ _)]
        simp
      have hcomma : NoDigit (',' :: ' ' ::
          ((", ".intercalate ((y :: ys).map text)).toList ++ close :: rest)) := by
        rintro _ ⟨⟩
        rfl
      rw [htext, hcons, hrow, List.nil_append, List.append_assoc]
      exact hitem x hcomma (lex_token rfl rfl (lex_blank rfl ih))

/-! ## Objects -/

/-- The datum that a field holds. -/
def Field.data : Field → Data
  | .text s => .text s
  | .number n => .int n
  | .texts ss => .array (ss.map .text)

theorem lex_field (x : Field) (hrest : NoDigit rest) (h : lex rest = some ts) :
    lex (x.render.toList ++ rest) = some (x.data.tokens ++ ts) := by
  cases x with
  | text s => exact lex_string s h
  | number n => exact lex_decimalText n hrest h
  | texts ss =>
    have htext : (Field.texts ss).render.toList ++ rest =
        '[' :: ((", ".intercalate (ss.map string)).toList ++ ']' :: rest) := by
      simp [Field.render]
    have hitem (s : String) {rest ts} (_ : NoDigit rest) (h : lex rest = some ts) :
        lex ((string s).toList ++ rest) = some ((Data.text s).tokens ++ ts) := lex_string s h
    rw [htext]
    refine lex_token rfl rfl ?_
    exact lex_intercalate ']' (fun lead ss => Data.itemTokens lead (ss.map .text))
      (lex_token rfl rfl) rfl (fun _ => rfl) (fun _ _ _ => rfl) hitem ss h

/-- The fields of an object with their data. -/
def Object.data (o : Object) : List (String × Data) := o.map fun x => (x.1, x.2.data)

/-- An object decodes to its fields, and to nothing else. -/
theorem decodes_render (o : Object) (d : Data) : Decodes (render o) d ↔ d = .object o.data := by
  have htext : (render o).toList = '\x7b' :: ((", ".intercalate
      (o.map fun x => string x.1 ++ ": " ++ x.2.render)).toList ++ ['\x7d']) := by
    simp [render]
  have hitem (x : String × Field) {rest ts} (hrest : NoDigit rest) (h : lex rest = some ts) :
      lex ((string x.1 ++ ": " ++ x.2.render).toList ++ rest) =
        some (.text x.1 :: .colon :: x.2.data.tokens ++ ts) := by
    have hfield : (string x.1 ++ ": " ++ x.2.render).toList ++ rest =
        (string x.1).toList ++ ':' :: ' ' :: (x.2.render.toList ++ rest) := by
      simp
    rw [hfield]
    exact lex_string x.1 (lex_token rfl rfl (lex_blank rfl (lex_field x.2 hrest h)))
  have hdecodes : Decodes (render o) (.object o.data) := by
    have hfields := lex_intercalate '\x7d' (fun lead (o : Object) => Data.fieldTokens lead o.data)
      (lex_token rfl rfl) rfl (fun _ => rfl) (fun _ _ _ => rfl) hitem o lex_nil
    rw [List.append_nil] at hfields
    rw [Decodes, htext]
    exact lex_token rfl rfl hfields
  refine ⟨fun h => h.unique hdecodes, ?_⟩
  rintro rfl
  exact hdecodes

/-! ## Control characters -/

/-- The text has no control character of the first block, so it is a single line. -/
def OneLine (text : String) : Prop := ∀ c ∈ text.toList, 0x20 ≤ c.toNat

theorem le_toNat_of_isPrintable {c : Char} (h : isPrintable c = true) : 0x20 ≤ c.toNat := by
  unfold isPrintable at h
  dsimp only at h
  split at h
  · exact of_decide_eq_true h
  · omega

theorem oneLine_of_legible {s : String} (h : Legible s) : OneLine s :=
  fun c hc => le_toNat_of_isPrintable (h c hc)

/-- Those that are not escaped are not control characters, and escapes are legible. -/
theorem oneLine_escape (c : Char) : ∀ ch ∈ escape c, 0x20 ≤ ch.toNat := by
  have hshort {letter : Char} (h : isPrintable letter = true) :
      ∀ ch ∈ ['\\', letter], 0x20 ≤ ch.toNat :=
    List.forall_mem_cons.2 ⟨le_toNat_of_isPrintable (by decide),
      List.forall_mem_singleton.2 (le_toNat_of_isPrintable h)⟩
  unfold escape
  split_ifs with hmark hfeed hreturn htab hback hform hcontrol
  · rcases hmark with rfl | rfl
    · exact hshort (by decide)
    · exact hshort (by decide)
  · exact hshort (by decide)
  · exact hshort (by decide)
  · exact hshort (by decide)
  · exact hshort (by decide)
  · exact hshort (by decide)
  · exact List.forall_mem_append.2 ⟨hshort (by decide),
      fun ch hch => le_toNat_of_isPrintable (Digits.printable_fixed 4 _ ch hch)⟩
  · exact List.forall_mem_singleton.2 (Nat.not_lt.1 hcontrol)

namespace OneLine

variable {s t : String}

theorem append (hs : OneLine s) (ht : OneLine t) : OneLine (s ++ t) := by
  intro c hc
  rw [String.toList_append, List.mem_append] at hc
  exact hc.elim (hs c) (ht c)

theorem intercalate {ss : List String} (h : ∀ t ∈ ss, OneLine t) :
    OneLine (", ".intercalate ss) :=
  forall_mem_intercalate (oneLine_of_legible (by decide)) h

theorem string (s : String) : OneLine (Json.string s) := by
  have hquote : OneLine "\"" := oneLine_of_legible (by decide)
  intro c hc
  rw [Json.string, String.toList_ofList, List.cons_append, List.mem_cons, List.mem_append] at hc
  rcases hc with rfl | hc | hc
  · exact hquote _ List.mem_cons_self
  · obtain ⟨ch, -, hc⟩ := List.mem_flatMap.1 hc
    exact oneLine_escape ch c hc
  · exact hquote c hc

theorem field (x : Field) : OneLine x.render := by
  cases x with
  | text s => exact string s
  | number n => exact oneLine_of_legible (legible_decimalText n)
  | texts ss =>
    have hitems : OneLine (", ".intercalate (ss.map Json.string)) := by
      refine intercalate fun t ht => ?_
      obtain ⟨s, -, rfl⟩ := List.mem_map.1 ht
      exact string s
    have hopen : OneLine "[" := oneLine_of_legible (by decide)
    have hclose : OneLine "]" := oneLine_of_legible (by decide)
    exact (hopen.append hitems).append hclose

theorem render (o : Object) : OneLine (Json.render o) := by
  have hcolon : OneLine ": " := oneLine_of_legible (by decide)
  have hfields : OneLine
      (", ".intercalate (o.map fun x => Json.string x.1 ++ ": " ++ x.2.render)) := by
    refine intercalate fun t ht => ?_
    obtain ⟨x, -, rfl⟩ := List.mem_map.1 ht
    exact ((string x.1).append hcolon).append (field x.2)
  have hopen : OneLine "\x7b" := oneLine_of_legible (by decide)
  have hclose : OneLine "\x7d" := oneLine_of_legible (by decide)
  exact (hopen.append hfields).append hclose

end OneLine

end Json

end Descent
