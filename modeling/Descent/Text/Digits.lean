-- SUMMARY: Digits of a natural number in a base, to a fixed width or in groups of three.

/-! # Digits

Decimal text of integers, the hexadecimal digits of escapes, and the grouping
of long numbers. All of it is built from one list of digits, least significant
last. -/

namespace Descent.Digits

/-- The character of one digit, in lower case above nine. -/
def toChar (d : Nat) : Char :=
  if d < 10 then Char.ofNat (48 + d) else Char.ofNat (87 + d)

/-- Exactly `width` digits of `n` in base `b`; higher digits are dropped. -/
def fixed (b width n : Nat) : List Char :=
  match width with
  | 0 => []
  | w + 1 => fixed b w (n / b) ++ [toChar (n % b)]

@[simp] theorem length_fixed (b width n : Nat) : (fixed b width n).length = width := by
  induction width generalizing n with
  | zero => rfl
  | succ w ih => simp [fixed, ih]

/-- The decimal digits of `n`, without leading zeros. -/
def decimal (n : Nat) : List Char :=
  if n < 10 then [toChar n] else decimal (n / 10) ++ [toChar (n % 10)]
termination_by n

theorem decimal_ne_nil (n : Nat) : decimal n ≠ [] := by
  unfold decimal; split <;> simp

/-- Puts a comma before every third character from the end, given the
    characters from the end. -/
def commas : List Char → List Char
  | a :: b :: c :: d :: rest => a :: b :: c :: ',' :: commas (d :: rest)
  | cs => cs

end Descent.Digits

namespace Descent

/-- The decimal text of an integer. -/
def decimalText (n : Int) : String :=
  if n < 0 then "-" ++ String.ofList (Digits.decimal n.natAbs)
  else String.ofList (Digits.decimal n.natAbs)

/-- The decimal text of an integer with its thousands separated by commas. -/
def groupedText (n : Int) : String :=
  let digits := String.ofList (Digits.commas (Digits.decimal n.natAbs).reverse).reverse
  if n < 0 then "-" ++ digits else digits

end Descent
