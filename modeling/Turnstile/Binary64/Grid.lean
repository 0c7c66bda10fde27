/-
The grid of binary64 magnitudes.

Every finite magnitude has a *rank*: the number of smaller ones. The
first 2^53 ranks are the multiples of 2^-1074, and each further run of
2^52 ranks (a binade) is spaced twice as wide as the run before it. So a
rank alone fixes the significand, the exponent and the value, equal
values have equal ranks, and the order of values is the order of ranks.

`Rank.nearest` goes the other way: the rank whose value is nearest to an
exact rational, an even rank on a tie. It is the only place where the
library rounds to binary64; the arithmetic (Binary64/Arithmetic.lean) is
exact rational arithmetic followed by one such rounding.
-/

namespace Turnstile

-- ======================================================= rounding to integers

/-- The nearest integer, the even one of two equally near. -/
def roundHalfEven (q : Rat) : Int :=
  let below := q.floor
  let rest := q - below
  if rest < 1 / 2 then below
  else if 1 / 2 < rest then below + 1
  else below + below % 2

/-- The nearest integer, the one further from zero of two equally near. -/
def roundHalfAway (q : Rat) : Int :=
  if q < 0 then -((-q + 1 / 2).floor) else (q + 1 / 2).floor

/-- For `q > 0`, the integer `l` with `2 ^ l ≤ q < 2 ^ (l + 1)`.

The lengths of numerator and denominator give it up to one. -/
def binaryOrder (q : Rat) : Int :=
  let guess : Int := (q.num.natAbs.log2 : Int) - (q.den.log2 : Int)
  if (2 : Rat) ^ guess ≤ q then guess else guess - 1

namespace Binary64

-- ================================================================== the ranks

/-- Magnitudes in one binade, 2^52. -/
def binade : Nat := 4503599627370496

/-- Number of finite magnitudes, 2047 binades. -/
def rankBound : Nat := 9218868437227405312

/-- Exponent of the spacing of the smallest magnitudes. -/
def minExponent : Int := -1074

namespace Rank

/-- The integer significand of the magnitude of rank `k`. -/
def significand (k : Nat) : Nat :=
  if k < binade then k else binade + k % binade

/-- The exponent of the spacing around the magnitude of rank `k`. -/
def exponent (k : Nat) : Int :=
  minExponent + ((k / binade - 1 : Nat) : Int)

/-- The magnitude of rank `k`. -/
def value (k : Nat) : Rat :=
  (significand k : Rat) * (2 : Rat) ^ exponent k

/-- The spacing exponent that binary64 uses for the magnitude `q > 0`. -/
def spacing (q : Rat) : Int :=
  max minExponent (binaryOrder q - 52)

/-- The rank nearest to `q ≥ 0`, an even one on a tie, as if the grid had
no end. -/
def nearest (q : Rat) : Nat :=
  if q ≤ 0 then 0
  else
    let e := spacing q
    (e - minExponent).toNat * binade + (roundHalfEven (q / (2 : Rat) ^ e)).toNat

end Rank

end Binary64

end Turnstile
