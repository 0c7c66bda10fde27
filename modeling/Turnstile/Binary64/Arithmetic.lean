/-
Binary64 arithmetic.

Each operation on finite numbers computes the exact rational result and
rounds it once (`Binary64.ofRat`); what remains is the sign of an exact
zero and the rules for infinities and NaN, which are those of IEEE 754.
`ceil`, `round` and `saturate` lead to integers.
-/
import Turnstile.Binary64.Basic

namespace Turnstile.Binary64

-- ================================================================== operations

/-- The same number with the other sign. -/
def neg : Binary64 → Binary64
  | .nan => .nan
  | .infinity negative => .infinity !negative
  | .finite negative rank => .finite (!negative) rank

/-- The sum. An exact zero is negative only as a sum of two negative zeros. -/
def add : Binary64 → Binary64 → Binary64
  | .nan, _ => .nan
  | _, .nan => .nan
  | .infinity s, .infinity t => if s = t then .infinity s else .nan
  | .infinity s, .finite .. => .infinity s
  | .finite .., .infinity t => .infinity t
  | .finite s m, .finite t n => ofRat (s && t) (signed s m + signed t n)

/-- The product. Its sign is the product of the signs, for zeros too. -/
def mul : Binary64 → Binary64 → Binary64
  | .nan, _ => .nan
  | _, .nan => .nan
  | .infinity s, .infinity t => .infinity (s != t)
  | .infinity s, .finite t n => if n.val = 0 then .nan else .infinity (s != t)
  | .finite s m, .infinity t => if m.val = 0 then .nan else .infinity (s != t)
  | .finite s m, .finite t n => ofRat (s != t) (signed s m * signed t n)

/-- The quotient. A nonzero number over zero is infinite. -/
def div : Binary64 → Binary64 → Binary64
  | .nan, _ => .nan
  | _, .nan => .nan
  | .infinity _, .infinity _ => .nan
  | .infinity s, .finite t _ => .infinity (s != t)
  | .finite s _, .infinity t => zero (s != t)
  | .finite s m, .finite t n =>
      if n.val = 0 then
        if m.val = 0 then .nan else .infinity (s != t)
      else ofRat (s != t) (signed s m / signed t n)

instance : Neg Binary64 := ⟨neg⟩

instance : Add Binary64 := ⟨add⟩

instance : Sub Binary64 := ⟨fun x y => x + -y⟩

instance : Mul Binary64 := ⟨mul⟩

instance : Div Binary64 := ⟨div⟩

-- ================================================================= to integers

/-- Applies a rounding of rationals to integers. A zero result keeps the
sign of the argument. -/
def toIntegral (rounding : Rat → Int) : Binary64 → Binary64
  | .finite negative rank => ofRat negative (rounding (signed negative rank))
  | x => x

/-- The least integer that is not smaller. -/
def ceil (x : Binary64) : Binary64 :=
  x.toIntegral Rat.ceil

/-- The nearest integer, halves away from zero. -/
def round (x : Binary64) : Binary64 :=
  x.toIntegral roundHalfAway

/-- The whole part, held between zero and `bound`; a NaN gives zero. -/
def saturate (bound : Nat) : Binary64 → Nat
  | .nan => 0
  | .infinity negative => if negative then 0 else bound
  | .finite negative rank => min (signed negative rank).floor.toNat bound

end Turnstile.Binary64
