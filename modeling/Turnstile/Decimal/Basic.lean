/-
Decimal numbers and their binary64 neighbours.

A decimal is a sign, a digit string read as a natural number, and a
power of ten. `toBinary64` is correct rounding of its exact value; the
two guards keep powers of ten with huge exponents from being computed
and change no result: from 10^310 on everything is infinite, and below
10^-330 everything is zero.
-/
import Turnstile.Binary64.Basic

namespace Turnstile

/-- A decimal number, `± digits · 10 ^ exponent`. -/
structure Decimal where
  negative : Bool
  digits : Nat
  exponent : Int
deriving DecidableEq, Repr

namespace Decimal

/-- The magnitude as an exact rational. -/
def magnitude (d : Decimal) : Rat :=
  (d.digits : Rat) * (10 : Rat) ^ d.exponent

/-- The exact value. -/
def toRat (d : Decimal) : Rat :=
  if d.negative then -d.magnitude else d.magnitude

/-- The nearest binary64 number, infinite if the value is too large. -/
def toBinary64 (d : Decimal) : Binary64 :=
  if d.digits = 0 then .zero d.negative
  else if 310 < d.exponent then .infinity d.negative
  else if d.exponent + d.digits.log2 + 1 < -330 then .zero d.negative
  else .ofRat d.negative d.toRat

end Decimal

end Turnstile
