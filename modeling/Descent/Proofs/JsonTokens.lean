-- SUMMARY: JSON texts are decoded by way of their tokens, and a text decodes to one datum at most.
import Descent.Proofs.Numerals
import Descent.Value

/-! # Decoding of JSON texts

A JSON text is a row of tokens with blanks between them. Each token is read from the front of
what is left: a text with its escapes, an integer, a word, or a mark. Each datum has one
spelling in tokens, and a text decodes to the datum whose spelling its tokens are. No token
spelling is the front of another, so a text decodes to one datum at most:
`Json.Decodes.unique`.

Numbers with a fraction or an exponent are no data here and have no token, and neither has a
surrogate that is not one of a pair. -/

namespace Descent

namespace Json

/-- The tokens of JSON texts. -/
inductive Token
  | null
  | bool (b : Bool)
  | int (n : Int)
  | text (s : String)
  | openBracket
  | closeBracket
  | openBrace
  | closeBrace
  | comma
  | colon
  deriving DecidableEq, Repr

/-! ## Reading tokens -/

/-- Whether tokens may be set apart by the character. -/
def isBlank (c : Char) : Bool := c = ' ' || c = '\t' || c = '\n' || c = '\r'

/-- The value of a hexadecimal digit in either case. -/
def hexDigit? (c : Char) : Option Nat :=
  if '0' ≤ c ∧ c ≤ '9' then some (c.toNat - 48)
  else if 'a' ≤ c ∧ c ≤ 'f' then some (c.toNat - 87)
  else if 'A' ≤ c ∧ c ≤ 'F' then some (c.toNat - 55)
  else none

/-- The number that four hexadecimal digits write, and what comes after them. -/
def codeUnit? : List Char → Option (Nat × List Char)
  | a :: b :: c :: d :: rest => do
    let a ← hexDigit? a
    let b ← hexDigit? b
    let c ← hexDigit? c
    let d ← hexDigit? d
    return (((a * 16 + b) * 16 + c) * 16 + d, rest)
  | _ => none

/-- The second half of a character that is written as a pair of surrogates. -/
def lowSurrogate? : List Char → Option (Nat × List Char)
  | '\\' :: 'u' :: rest => do
    let (low, rest) ← codeUnit? rest
    if 0xdc00 ≤ low ∧ low < 0xe000 then return (low - 0xdc00, rest) else none
  | _ => none

/-- A character that is written by its number, or as a pair of surrogates. -/
def codePoint? (cs : List Char) : Option (Char × List Char) := do
  let (unit, rest) ← codeUnit? cs
  if unit < 0xd800 ∨ 0xe000 ≤ unit then return (Char.ofNat unit, rest)
  else if unit < 0xdc00 then
    let (low, rest) ← lowSurrogate? rest
    return (Char.ofNat (0x10000 + (unit - 0xd800) * 0x400 + low), rest)
  else none

/-- The character that another one stands for after a backslash. -/
def shortEscape? : Char → Option Char
  | '"' => some '"'
  | '\\' => some '\\'
  | '/' => some '/'
  | 'b' => some '\x08'
  | 'f' => some '\x0c'
  | 'n' => some '\n'
  | 'r' => some '\r'
  | 't' => some '\t'
  | _ => none

/-- A character of a text, and what comes after it. Control characters have to be escaped. -/
def char? : List Char → Option (Char × List Char)
  | [] => none
  | '\\' :: 'u' :: rest => codePoint? rest
  | '\\' :: c :: rest => (shortEscape? c).map (·, rest)
  | c :: rest => if c = '"' ∨ c = '\\' ∨ c.toNat < 0x20 then none else some (c, rest)

theorem codeUnit?_length {cs rest : List Char} {n : Nat} (h : codeUnit? cs = some (n, rest)) :
    rest.length < cs.length := by
  unfold codeUnit? at h
  split at h
  · simp only [Option.bind_eq_bind, Option.bind_eq_some_iff, Option.pure_def,
      Option.some.injEq, Prod.mk.injEq] at h
    obtain ⟨_, -, _, -, _, -, _, -, -, rfl⟩ := h
    simp only [List.length_cons]
    omega
  · cases h

theorem lowSurrogate?_length {cs rest : List Char} {n : Nat}
    (h : lowSurrogate? cs = some (n, rest)) : rest.length < cs.length := by
  unfold lowSurrogate? at h
  split at h
  · rw [Option.bind_eq_bind, Option.bind_eq_some_iff] at h
    obtain ⟨⟨low, rest'⟩, hunit, h⟩ := h
    have hlt := codeUnit?_length hunit
    dsimp only at h
    split at h
    · obtain ⟨-, rfl⟩ := Prod.mk.inj (Option.some.inj h)
      simp only [List.length_cons]
      omega
    · cases h
  · cases h

theorem codePoint?_length {cs rest : List Char} {c : Char}
    (h : codePoint? cs = some (c, rest)) : rest.length < cs.length := by
  unfold codePoint? at h
  rw [Option.bind_eq_bind, Option.bind_eq_some_iff] at h
  obtain ⟨⟨unit, rest'⟩, hunit, h⟩ := h
  have hlt := codeUnit?_length hunit
  dsimp only at h
  split at h
  · obtain ⟨-, rfl⟩ := Prod.mk.inj (Option.some.inj h)
    exact hlt
  · split at h
    · obtain ⟨⟨low, rest''⟩, hlow, h⟩ := Option.bind_eq_some_iff.1 h
      obtain ⟨-, rfl⟩ := Prod.mk.inj (Option.some.inj h)
      exact Nat.lt_trans (lowSurrogate?_length hlow) hlt
    · cases h

theorem char?_length {cs rest : List Char} {c : Char} (h : char? cs = some (c, rest)) :
    rest.length < cs.length := by
  unfold char? at h
  split at h
  · cases h
  · exact Nat.lt_succ_of_lt (Nat.lt_succ_of_lt (codePoint?_length h))
  · obtain ⟨_, -, h⟩ := Option.map_eq_some_iff.1 h
    cases h
    simp only [List.length_cons]
    omega
  · split at h
    · cases h
    · cases h
      exact Nat.lt_succ_self _

/-- The characters of a text up to its closing quote, and what comes after that. -/
def chars? (cs : List Char) : Option (List Char × List Char) :=
  match _ : char? cs with
  | some (c, rest) => (chars? rest).map fun (text, rest) => (c :: text, rest)
  | none => if cs.head? = some '"' then some ([], cs.tail) else none
termination_by cs.length
decreasing_by exact char?_length ‹_›

/-- A natural number without zeros in front, and what comes after its digits. -/
def number? (cs : List Char) : Option (Nat × List Char) :=
  let digits := cs.takeWhile Char.isDigit
  if digits = [] ∨ (digits.head? = some '0' ∧ digits ≠ ['0']) then none
  else some (Digits.value digits, cs.dropWhile Char.isDigit)

/-- The token of a single character. -/
def mark? : Char → Option Token
  | '[' => some .openBracket
  | ']' => some .closeBracket
  | '\x7b' => some .openBrace
  | '\x7d' => some .closeBrace
  | ',' => some .comma
  | ':' => some .colon
  | _ => none

/-- A word, but for its first letter, and what comes after it. -/
def word? (c : Char) (rest : List Char) : Option (Token × List Char) :=
  match c, rest with
  | 'n', 'u' :: 'l' :: 'l' :: rest => some (.null, rest)
  | 't', 'r' :: 'u' :: 'e' :: rest => some (.bool true, rest)
  | 'f', 'a' :: 'l' :: 's' :: 'e' :: rest => some (.bool false, rest)
  | _, _ => none

/-- The token that begins with the character, and what comes after it. -/
def token? (c : Char) (rest : List Char) : Option (Token × List Char) :=
  if c.isDigit then (number? (c :: rest)).map fun (n, rest) => (.int n, rest)
  else if c = '-' then (number? rest).map fun (n, rest) => (.int (-n), rest)
  else if c = '"' then (chars? rest).map fun (text, rest) => (.text (String.ofList text), rest)
  else match mark? c with
    | some t => some (t, rest)
    | none => word? c rest

theorem chars?_length {cs rest text : List Char} (h : chars? cs = some (text, rest)) :
    rest.length ≤ cs.length := by
  fun_induction chars? cs generalizing text with
  | case1 cs c rest' hchar ih =>
    obtain ⟨⟨text', _⟩, htext, h⟩ := Option.map_eq_some_iff.1 h
    cases h
    exact Nat.le_trans (ih htext) (Nat.le_of_lt (char?_length hchar))
  | case2 cs =>
    cases h
    rw [List.length_tail]
    exact Nat.sub_le _ _
  | case3 => cases h

theorem number?_length {cs rest : List Char} {n : Nat} (h : number? cs = some (n, rest)) :
    rest.length < cs.length := by
  unfold number? at h
  dsimp only at h
  split at h
  · cases h
  · rename_i hdigits
    obtain ⟨-, rfl⟩ := Prod.mk.inj (Option.some.inj h)
    have hpos := List.length_pos_iff.2 (not_or.1 hdigits).1
    have hsplit : cs.takeWhile Char.isDigit ++ cs.dropWhile Char.isDigit = cs :=
      List.takeWhile_append_dropWhile
    have hlength := congrArg List.length hsplit
    rw [List.length_append] at hlength
    omega

theorem word?_length {c : Char} {rest rest' : List Char} {t : Token}
    (h : word? c rest = some (t, rest')) : rest'.length ≤ rest.length := by
  unfold word? at h
  split at h <;> cases h
  all_goals
    simp only [List.length_cons]
    omega

theorem token?_length {c : Char} {rest rest' : List Char} {t : Token}
    (h : token? c rest = some (t, rest')) : rest'.length ≤ rest.length := by
  unfold token? at h
  split at h
  · obtain ⟨⟨_, _⟩, hnumber, ⟨⟩⟩ := Option.map_eq_some_iff.1 h
    exact Nat.le_of_lt_succ (number?_length hnumber)
  · split at h
    · obtain ⟨⟨_, _⟩, hnumber, ⟨⟩⟩ := Option.map_eq_some_iff.1 h
      exact Nat.le_of_lt (number?_length hnumber)
    · split at h
      · obtain ⟨⟨_, _⟩, htext, ⟨⟩⟩ := Option.map_eq_some_iff.1 h
        exact chars?_length htext
      · split at h
        · cases h
          exact Nat.le_refl _
        · exact word?_length h

theorem token?_quote {cs text rest : List Char} (h : chars? cs = some (text, rest)) :
    token? '"' cs = some (.text (String.ofList text), rest) := by
  change (chars? cs).map _ = _
  rw [h]
  rfl

theorem token?_minus {cs rest : List Char} {n : Nat} (h : number? cs = some (n, rest)) :
    token? '-' cs = some (.int (-n), rest) := by
  change (number? cs).map _ = _
  rw [h]
  rfl

theorem token?_digit {c : Char} {cs rest : List Char} {n : Nat} (hc : c.isDigit = true)
    (h : number? (c :: cs) = some (n, rest)) : token? c cs = some (.int n, rest) := by
  rw [token?, if_pos hc, h]
  rfl

/-- The tokens of a text. -/
def lex (cs : List Char) : Option (List Token) :=
  match cs with
  | [] => some []
  | c :: rest =>
    if isBlank c then lex rest
    else match _ : token? c rest with
      | some (t, rest') => (lex rest').map (t :: ·)
      | none => none
termination_by cs.length
decreasing_by
  · exact Nat.lt_succ_self _
  · exact Nat.lt_succ_of_le (token?_length ‹_›)

theorem lex_nil : lex [] = some [] := by
  rw [lex]

theorem lex_blank {c : Char} {rest : List Char} {ts : List Token} (hc : isBlank c = true)
    (h : lex rest = some ts) : lex (c :: rest) = some ts := by
  rw [lex, if_pos hc]
  exact h

theorem lex_token {c : Char} {rest rest' : List Char} {t : Token} {ts : List Token}
    (hc : isBlank c = false) (htoken : token? c rest = some (t, rest'))
    (h : lex rest' = some ts) : lex (c :: rest) = some (t :: ts) := by
  rw [lex, if_neg (Bool.eq_false_iff.1 hc)]
  split
  · rename_i heq
    cases htoken.symm.trans heq
    rw [h]
    rfl
  · rename_i heq
    cases htoken.symm.trans heq

theorem isBlank_of_isDigit {c : Char} (h : c.isDigit = true) : isBlank c = false := by
  rw [Bool.eq_false_iff]
  intro hblank
  simp only [isBlank, Bool.or_eq_true, decide_eq_true_eq] at hblank
  rcases hblank with ((rfl | rfl) | rfl) | rfl <;> exact absurd h (by decide)

end Json

/-! ## Spelling of data -/

namespace Data

mutual
/-- The tokens of a datum. -/
def tokens : Data → List Json.Token
  | .null => [.null]
  | .bool b => [.bool b]
  | .int n => [.int n]
  | .text s => [.text s]
  | .array ds => .openBracket :: itemTokens [] ds
  | .object fs => .openBrace :: fieldTokens [] fs

/-- The tokens of the items of an array, up to its end. The given tokens come before the first
    item, and a comma before each of the others. -/
def itemTokens (lead : List Json.Token) : List Data → List Json.Token
  | [] => [.closeBracket]
  | d :: ds => lead ++ (tokens d ++ itemTokens [.comma] ds)

/-- The tokens of the fields of an object, up to its end. -/
def fieldTokens (lead : List Json.Token) : List (String × Data) → List Json.Token
  | [] => [.closeBrace]
  | (key, d) :: fs => lead ++ .text key :: .colon :: (tokens d ++ fieldTokens [.comma] fs)
end

/-- What stands before an item does not end the list of items. -/
theorem append_ne_cons {t : Json.Token} {lead ts ts' : List Json.Token} (hlead : t ∉ lead)
    (h : ts ≠ t :: ts') : lead ++ ts ≠ t :: ts' := by
  cases lead with
  | nil => exact h
  | cons t' lead =>
    rintro ⟨⟩
    exact hlead List.mem_cons_self

theorem tokens_append_ne_close (d : Data) (ts ts' : List Json.Token) :
    d.tokens ++ ts ≠ .closeBracket :: ts' := by
  cases d <;> exact nofun

mutual
/-- No spelling of a datum is the front of another. -/
theorem tokens_append_inj (d d' : Data) {ts ts' : List Json.Token}
    (h : d.tokens ++ ts = d'.tokens ++ ts') : d = d' ∧ ts = ts' := by
  cases d with
  | null | bool | int | text =>
    -- Such a datum is a token of its own, so the others have another first token.
    cases d' <;> cases h
    exact ⟨rfl, rfl⟩
  | array ds =>
    cases d' with
    | array ds' =>
      obtain ⟨rfl, rfl⟩ := itemTokens_append_inj ds ds' (by decide) (List.cons.inj h).2
      exact ⟨rfl, rfl⟩
    | null | bool | int | text | object => cases h
  | object fs =>
    cases d' with
    | object fs' =>
      obtain ⟨rfl, rfl⟩ := fieldTokens_append_inj fs fs' (by decide) (List.cons.inj h).2
      exact ⟨rfl, rfl⟩
    | null | bool | int | text | array => cases h

theorem itemTokens_append_inj (ds ds' : List Data) {lead ts ts' : List Json.Token}
    (hlead : .closeBracket ∉ lead) (h : itemTokens lead ds ++ ts = itemTokens lead ds' ++ ts') :
    ds = ds' ∧ ts = ts' := by
  cases ds with
  | nil =>
    cases ds' with
    | nil => exact ⟨rfl, (List.cons.inj h).2⟩
    | cons d' ds' =>
      rw [itemTokens, itemTokens, List.append_assoc, List.append_assoc] at h
      exact absurd h.symm (append_ne_cons hlead (d'.tokens_append_ne_close _ _))
  | cons d ds =>
    cases ds' with
    | nil =>
      rw [itemTokens, itemTokens, List.append_assoc, List.append_assoc] at h
      exact absurd h (append_ne_cons hlead (d.tokens_append_ne_close _ _))
    | cons d' ds' =>
      have hcomma : Json.Token.closeBracket ∉ [.comma] := by decide
      simp only [itemTokens, List.append_assoc, List.append_cancel_left_eq] at h
      obtain ⟨rfl, hmore⟩ := tokens_append_inj d d' h
      obtain ⟨rfl, rfl⟩ := itemTokens_append_inj ds ds' hcomma hmore
      exact ⟨rfl, rfl⟩

theorem fieldTokens_append_inj (fs fs' : List (String × Data)) {lead ts ts' : List Json.Token}
    (hlead : .closeBrace ∉ lead) (h : fieldTokens lead fs ++ ts = fieldTokens lead fs' ++ ts') :
    fs = fs' ∧ ts = ts' := by
  cases fs with
  | nil =>
    cases fs' with
    | nil => exact ⟨rfl, (List.cons.inj h).2⟩
    | cons field' fs' =>
      obtain ⟨key', d'⟩ := field'
      rw [fieldTokens, fieldTokens, List.append_assoc] at h
      exact absurd h.symm (append_ne_cons hlead nofun)
  | cons field fs =>
    obtain ⟨key, d⟩ := field
    cases fs' with
    | nil =>
      rw [fieldTokens, fieldTokens, List.append_assoc] at h
      exact absurd h (append_ne_cons hlead nofun)
    | cons field' fs' =>
      obtain ⟨key', d'⟩ := field'
      have hcomma : Json.Token.closeBrace ∉ [.comma] := by decide
      simp only [fieldTokens, List.append_assoc, List.cons_append, List.append_cancel_left_eq,
        List.cons.injEq, Json.Token.text.injEq, true_and] at h
      obtain ⟨rfl, hcontent⟩ := h
      obtain ⟨rfl, hmore⟩ := tokens_append_inj d d' hcontent
      obtain ⟨rfl, rfl⟩ := fieldTokens_append_inj fs fs' hcomma hmore
      exact ⟨rfl, rfl⟩
end

end Data

/-- The text is a JSON text for the datum. -/
def Json.Decodes (text : String) (d : Data) : Prop := lex text.toList = some d.tokens

/-- A text decodes to one datum at most. -/
theorem Json.Decodes.unique {text : String} {d d' : Data} (h : Decodes text d)
    (h' : Decodes text d') : d = d' := by
  have htokens : d.tokens ++ [] = d'.tokens ++ [] :=
    congrArg (· ++ []) (Option.some.inj (h.symm.trans h'))
  exact (Data.tokens_append_inj d d' htokens).1

end Descent
