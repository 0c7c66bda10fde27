/-
The shortest decimal that reads back.

For a positive finite number the candidates of `n` digits are its two
neighbours on the decimal grid of `n` places. The first `n` for which a
neighbour rounds back to the number wins, and of two such neighbours the
nearer; an exact tie goes up or to the even digit, as the caller says.
Seventeen digits always read back, so the search ends there.
-/
import Turnstile.Decimal.Basic

namespace Turnstile.Decimal

/-- Which of two equally near decimals is taken. -/
inductive Tie where
  | up
  | even
deriving DecidableEq

/-- For `q` from 10^-342 on, the integer `p` with `10 ^ (p - 1) ≤ q < 10 ^ p`. -/
def order (q : Rat) : Int :=
  ((Nat.toDigits 10 (q * (10 : Rat) ^ (342 : Int)).floor.toNat).length : Int) - 342

/-- The power of ten of the last of `places` digits of `q`. -/
def lastPlace (q : Rat) (places : Nat) : Int :=
  order q - places

/-- The decimal `digits · 10 ^ exponent` rounds to the magnitude of rank `k`. -/
def readsBack (k : Nat) (digits : Nat) (exponent : Int) : Bool :=
  Binary64.Rank.nearest (magnitude ⟨false, digits, exponent⟩) == k

/-- The better of the two neighbours of `q` on the grid of `places`
digits, among those that round to rank `k`. -/
def neighbour? (tie : Tie) (k : Nat) (q : Rat) (places : Nat) : Option Decimal :=
  let e := lastPlace q places
  let scaled := q / (10 : Rat) ^ e
  let low := scaled.floor.toNat
  let high := low + 1
  let goUp := match tie with
    | .up => decide (1 / 2 ≤ scaled - low)
    | .even => decide (1 / 2 < scaled - low ∨ scaled - low = 1 / 2 ∧ low % 2 = 1)
  match readsBack k low e, readsBack k high e with
  | true, true => some ⟨false, if goUp then high else low, e⟩
  | true, false => some ⟨false, low, e⟩
  | false, true => some ⟨false, high, e⟩
  | false, false => none

/-- The shortest decimal that rounds to the magnitude of rank `k`. -/
def shortest (tie : Tie) (k : Nat) : Decimal :=
  let q := Binary64.Rank.value k
  if k = 0 then ⟨false, 0, 0⟩
  else ((List.range 17).findSome? fun n => neighbour? tie k q (n + 1)).getD ⟨false, 0, 0⟩

end Turnstile.Decimal
