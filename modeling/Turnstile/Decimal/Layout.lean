/-
Decimal layout: a shortest decimal as text.

A layout says which magnitudes are written positionally, whether a whole
number keeps a `.0`, and how ties between two shortest decimals fall. All
else is common: a minus sign in front (before a zero as well), no leading
zeros but the one before the point, no trailing zeros, and where a number
is not positional an exponent with its sign.
-/
import Turnstile.Decimal.Shortest
import Turnstile.Text.Character

namespace Turnstile.Decimal

open Text (decimalDigits)

/-- The decisions of a number format. -/
structure Layout where
  /-- The number is positional; asked of the place of its point, counted
  from its first digit. -/
  positional : Int → Bool
  /-- A whole number ends in `.0`. -/
  keepsPoint : Bool
  tie : Tie

namespace Layout

/-- A run of zeros. -/
def zeros (n : Nat) : List Char :=
  List.replicate n '0'

/-- Digits with the point set `point` places after the first of them. -/
def withPoint (keepsPoint : Bool) (digits : List Char) (point : Int) : List Char :=
  if point ≤ 0 then
    '0' :: '.' :: zeros (-point).toNat ++ digits
  else if digits.length ≤ point.toNat then
    digits ++ zeros (point.toNat - digits.length) ++ (if keepsPoint then ['.', '0'] else [])
  else
    digits.take point.toNat ++ '.' :: digits.drop point.toNat

/-- Digits with the point after the first of them, and an exponent. -/
def withExponent (digits : List Char) (point : Int) : List Char :=
  let power := point - 1
  let mantissa := match digits with
    | [] => []
    | [d] => [d]
    | d :: rest => d :: '.' :: rest
  mantissa ++ 'e' :: (if power < 0 then '-' else '+') :: decimalDigits power.natAbs

/-- The significant digits of a number, without trailing zeros. -/
def significant (n : Nat) : List Char :=
  ((decimalDigits n).reverse.dropWhile (· == '0')).reverse

/-- The text of the magnitude of a rank. -/
def magnitude (layout : Layout) (k : Nat) : List Char :=
  if k = 0 then withPoint layout.keepsPoint ['0'] 1
  else
    let d := shortest layout.tie k
    let point := ((decimalDigits d.digits).length : Int) + d.exponent
    let digits := significant d.digits
    if layout.positional point then withPoint layout.keepsPoint digits point
    else withExponent digits point

/-- The text of a number of the given sign and rank. -/
def text (layout : Layout) (negative : Bool) (k : Nat) : String :=
  String.ofList (if negative then '-' :: layout.magnitude k else layout.magnitude k)

end Layout

end Turnstile.Decimal
