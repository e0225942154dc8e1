-- SUMMARY: Lengths of time in double precision, and the text that messages give for them.
import Descent.Text.Digits
import Descent.Number.Significant

/-! # Seconds

A length of time is a number of seconds held in double precision: fifty-three
significant bits, none of weight below `2 ^ (-1074)`, and nothing finite from
`2 ^ 1024` on. Messages print it with at most six significant digits, trailing
zeros dropped: positionally when the leading digit stands between `10 ^ (-4)`
and `10 ^ 5`, and with an exponent of at least two digits otherwise. -/

namespace Descent

/-- A length of time. -/
inductive Seconds
  /-- A sign and a magnitude. Zero has both signs. -/
  | finite (negative : Bool) (magnitude : Rat)
  | infinite (negative : Bool)
  /-- The length that compares with no other. -/
  | undefined
  deriving DecidableEq, Repr

namespace Seconds

/-- No time at all. -/
def zero : Seconds := .finite false 0

/-- The magnitude from which on a length of time is infinite. -/
def ceiling : Nat := Nat.pow 2 1024

/-- The length of time nearest to `num / den`, with a given sign. -/
def nearest (negative : Bool) (num den : Nat) : Seconds :=
  let (m, e) := Significant.nearest 2 53 (some (-1074)) num den
  let magnitude := mkRat (m * Nat.pow 2 e.toNat : Nat) (Nat.pow 2 (-e).toNat)
  if (ceiling : Rat) ≤ magnitude then .infinite negative else .finite negative magnitude

/-- The length of time nearest to `mantissa / 10 ^ places`, with a given sign. -/
def ofDecimal (negative : Bool) (mantissa places : Nat) : Seconds :=
  nearest negative mantissa (Nat.pow 10 places)

/-- The length of time nearest to a whole number, if it is finite. -/
def ofWhole? (n : Int) : Option Seconds :=
  match nearest (n < 0) n.natAbs 1 with
  | .finite negative magnitude => some (.finite negative magnitude)
  | _ => none

/-- The timeout that a message names: zero is printed without a sign. -/
def orZero : Seconds → Seconds
  | .finite negative magnitude => if magnitude = 0 then zero else .finite negative magnitude
  | s => s

/-- The length of time nearest to a fraction. -/
def ofRat (r : Rat) : Seconds := nearest (r < 0) r.num.natAbs r.den

/-- The moment at which a length of time is over that began at a reading of the clock. The sum
    is rounded as a length of time is, so a very short one may be over at once. -/
def after (s : Seconds) (start : Rat) : Seconds :=
  match s with
  | .finite negative magnitude => ofRat (start + if negative then -magnitude else magnitude)
  | s => s

/-- Whether a moment is reached at a reading of the clock. An infinite one never is, unless it
    is negative. -/
def isReached (s : Seconds) (now : Rat) : Bool :=
  match s with
  | .finite negative magnitude => (if negative then -magnitude else magnitude) ≤ now
  | .infinite negative => negative
  | .undefined => false

/-- Whether a length of time that began at one reading of the clock is over at another. -/
def isOver (s : Seconds) (start now : Rat) : Bool := (s.after start).isReached now

/-- Digits with a point after the first `n + 1` of them, padded with zeros. -/
def positional (digits : List Char) (n : Nat) : List Char :=
  let whole := digits.take (n + 1)
  let fraction := digits.drop (n + 1)
  whole ++ List.replicate (n + 1 - whole.length) '0'
    ++ (if fraction.isEmpty then [] else '.' :: fraction)

/-- Digits with a point after the first, and an exponent. -/
def scientific (digits : List Char) (x : Int) : List Char :=
  let exponent := Digits.decimal x.natAbs
  positional digits 0 ++ ['e', if x < 0 then '-' else '+']
    ++ List.replicate (2 - exponent.length) '0' ++ exponent

/-- The digits of a positive magnitude as messages print them. -/
def magnitudeText (num den : Nat) : List Char :=
  let (m, e) := Significant.nearest 10 6 none num den
  let all := Digits.decimal m
  let x : Int := e + (all.length - 1 : Nat)
  let digits := (all.reverse.dropWhile (· == '0')).reverse
  if x < -4 ∨ 6 ≤ x then scientific digits x
  else if x < 0 then '0' :: '.' :: List.replicate (x.natAbs - 1) '0' ++ digits
  else positional digits x.toNat

/-- A text with a sign in front if it is negative. -/
def withSign (negative : Bool) (text : List Char) : String :=
  String.ofList (if negative then '-' :: text else text)

/-- The text of a length of time in messages. -/
def text : Seconds → String
  | .finite negative magnitude =>
    withSign negative
      (if magnitude = 0 then ['0'] else magnitudeText magnitude.num.natAbs magnitude.den)
  | .infinite negative => withSign negative ['i', 'n', 'f']
  | .undefined => "nan"

end Seconds

end Descent
