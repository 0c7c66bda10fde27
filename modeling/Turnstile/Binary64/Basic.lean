/-
Binary64 numbers: IEEE 754 double precision values as data.

There is one NaN, and a finite number is a sign with a rank on the grid
of magnitudes (Binary64/Grid.lean), so the two zeros are two numbers and
all other numbers have one representation each. `Binary64.ofRat` rounds
an exact rational; comparison goes by sign and rank and is false as soon
as a NaN takes part. `bits` is the interchange encoding.
-/
import Turnstile.Binary64.Grid

namespace Turnstile

/-- A binary64 number. -/
inductive Binary64 where
  | nan
  | infinity (negative : Bool)
  | finite (negative : Bool) (rank : Fin Binary64.rankBound)
deriving DecidableEq

namespace Binary64

-- ================================================================ construction

/-- Zero with the given sign. -/
def zero (negative : Bool) : Binary64 :=
  .finite negative ⟨0, by decide⟩

/-- The number of a sign and a rank; ranks past the grid are infinite. -/
def ofRank (negative : Bool) (rank : Nat) : Binary64 :=
  if h : rank < rankBound then .finite negative ⟨rank, h⟩ else .infinity negative

/-- The number nearest to `q`, the one of even rank on a tie; too large
magnitudes give infinity. The sign is that of `q`, and for `q = 0` it is
`negativeZero`. -/
def ofRat (negativeZero : Bool) (q : Rat) : Binary64 :=
  if q < 0 then ofRank true (Rank.nearest (-q))
  else if q = 0 then zero negativeZero
  else ofRank false (Rank.nearest q)

/-- The number nearest to a natural number. -/
def ofNat (n : Nat) : Binary64 :=
  ofRat false n

instance (n : Nat) : OfNat Binary64 n := ⟨ofNat n⟩

instance : Inhabited Binary64 := ⟨zero false⟩

-- ======================================================================= views

/-- The value of a finite number with the given sign and rank. -/
def signed (negative : Bool) (rank : Nat) : Rat :=
  if negative then -Rank.value rank else Rank.value rank

/-- The exact value, if there is one. -/
def toRat? : Binary64 → Option Rat
  | .finite negative rank => some (signed negative rank)
  | _ => none

/-- The number is a NaN. -/
def isNaN : Binary64 → Bool
  | .nan => true
  | _ => false

/-- The number is neither NaN nor infinite. -/
def isFinite : Binary64 → Bool
  | .finite .. => true
  | _ => false

/-- The sign bit. The sign of the NaN is not kept and reads as plus. -/
def isNegative : Binary64 → Bool
  | .nan => false
  | .infinity negative => negative
  | .finite negative _ => negative

/-- Place on the number line: minus or plus the rank, infinities one step
past the last ranks. A NaN has none, and the two zeros share theirs. -/
def place? : Binary64 → Option Int
  | .nan => none
  | .infinity negative => some (if negative then -(rankBound : Int) else rankBound)
  | .finite negative rank => some (if negative then -(rank.val : Int) else rank.val)

-- ================================================================== comparison

/-- Strictly less; false if a NaN takes part. -/
def lt (x y : Binary64) : Bool :=
  match x.place?, y.place? with
  | some a, some b => decide (a < b)
  | _, _ => false

/-- Less or equal; false if a NaN takes part. -/
def le (x y : Binary64) : Bool :=
  match x.place?, y.place? with
  | some a, some b => decide (a ≤ b)
  | _, _ => false

instance : LT Binary64 := ⟨fun x y => x.lt y = true⟩

instance : LE Binary64 := ⟨fun x y => x.le y = true⟩

instance (x y : Binary64) : Decidable (x < y) :=
  inferInstanceAs (Decidable (x.lt y = true))

instance (x y : Binary64) : Decidable (x ≤ y) :=
  inferInstanceAs (Decidable (x.le y = true))

/-- The smaller of two numbers, and the other one if one is a NaN. -/
def lesser (x y : Binary64) : Binary64 :=
  if x.isNaN then y
  else if y.isNaN then x
  else if y < x then y
  else x

-- ==================================================================== encoding

/-- The interchange encoding: sign bit, then eleven exponent bits and
fifty-two fraction bits, which together count the smaller magnitudes. A
NaN is written as the quiet one without sign. -/
def bits : Binary64 → UInt64
  | .nan => 0x7ff8000000000000
  | .infinity negative => (if negative then 0x8000000000000000 else 0) + rankBound.toUInt64
  | .finite negative rank =>
      (if negative then 0x8000000000000000 else 0) + rank.val.toUInt64

end Binary64

end Turnstile
