-- SUMMARY: The number with a given count of digits, in a given base, that is nearest to a fraction.

/-! # Significant digits

A fraction `num / den` is rounded to `p` significant digits in base `b`. The
result is a pair `(m, e)` that stands for `m * b ^ e`; a fraction half-way
between two candidates goes to the one with an even `m`. With base two this
gives the floating-point number nearest to a fraction, with base ten the
decimal that is printed for it. -/

namespace Descent

/-- The integer nearest to `num / den`; a half goes to the even neighbour. -/
def roundHalfEven (num den : Nat) : Nat :=
  let q := num / den
  let twice := 2 * (num % den)
  if twice < den then q
  else if den < twice then q + 1
  else q + q % 2

namespace Significant

/-- The exponent of the leading digit of `n` in base `b`, and `0` for `n = 0`. -/
def leading (b n : Nat) : Nat :=
  if h : 2 ≤ b ∧ b ≤ n then leading b (n / b) + 1 else 0
termination_by n
decreasing_by exact Nat.div_lt_self (by omega) (by omega)

/-- Whether `num / den` is below `b ^ k`. -/
def below (b num den : Nat) (k : Int) : Bool :=
  num * b.pow (-k).toNat < den * b.pow k.toNat

/-- The exponent `k` with `b ^ k ≤ num / den < b ^ (k + 1)`. -/
def exponent (b num den : Nat) : Int :=
  let k : Int := leading b num - leading b den
  if below b num den k then k - 1 else k

/-- `num / den` rounded to `p` digits in base `b`, with no digit of weight
    below `b ^ lowest`. -/
def nearest (b p : Nat) (lowest : Option Int) (num den : Nat) : Nat × Int :=
  let free := exponent b num den - (p - 1 : Nat)
  let e := match lowest with
    | none => free
    | some l => max free l
  (roundHalfEven (num * b.pow (-e).toNat) (den * b.pow e.toNat), e)

end Significant

end Descent
