/-
Floating-point numerals.

The grammar is

    numeral  = [+-] (special | mantissa [exponent])
    special  = inf | infinity | nan            in any mixture of cases
    mantissa = digits [. [digits]] | . digits
    exponent = (e | E) [+-] digits

so a point needs a digit on one side only, and an exponent needs a digit.
`Numeral.binary64?` rounds the number correctly; too large a number reads
as infinity and is no error. `Numeral.fixed?` reads a bare mantissa.
-/
import Turnstile.Decimal.Basic
import Turnstile.Text.Character

namespace Turnstile.Decimal.Numeral

open Text (isDigit positional natural?)

-- ================================================================ the mantissa

/-- Splits a text into its leading digits and the rest. -/
def spanDigits (cs : List Char) : List Char × List Char :=
  (cs.takeWhile isDigit, cs.dropWhile isDigit)

/-- The decimal spelled by the digits before and after the point, with a
sign and a power of ten applied. -/
def assemble (negative : Bool) (whole fraction : List Char) (scale : Int) :
    Decimal :=
  ⟨negative, positional 10 (whole ++ fraction), scale - fraction.length⟩

/-- Reads a mantissa: digits before the point, digits after it, the rest. -/
def mantissa? (cs : List Char) :
    Option (List Char × List Char × List Char) :=
  let (whole, rest) := spanDigits cs
  let (fraction, rest) := match rest with
    | '.' :: rest => spanDigits rest
    | _ => ([], rest)
  if whole ++ fraction = [] then none else some (whole, fraction, rest)

/-- A whole text that is a mantissa without sign or exponent. -/
def fixed? (cs : List Char) : Option Decimal :=
  match mantissa? cs with
  | some (whole, fraction, []) => some (assemble false whole fraction 0)
  | _ => none

-- ================================================================ the exponent

/-- A sign, if one stands in front, and what follows it. -/
def sign (cs : List Char) : Bool × List Char :=
  match cs with
  | '-' :: rest => (true, rest)
  | '+' :: rest => (false, rest)
  | _ => (false, cs)

/-- The power of ten of a whole text that is an exponent or empty. -/
def exponent? (cs : List Char) : Option Int :=
  match cs with
  | [] => some 0
  | c :: rest =>
      if c = 'e' ∨ c = 'E' then
        let (negative, digits) := sign rest
        (natural? digits).map fun n => if negative then -(n : Int) else n
      else none

-- ================================================================ the numerals

/-- The text with its ASCII capitals made small. -/
def lowered (cs : List Char) : List Char :=
  cs.map Char.toLower

/-- The number without its sign. -/
def unsigned? (negative : Bool) (cs : List Char) : Option Binary64 :=
  let name := lowered cs
  if name = ['i', 'n', 'f'] ∨ name = ['i', 'n', 'f', 'i', 'n', 'i', 't', 'y'] then
    some (.infinity negative)
  else if name = ['n', 'a', 'n'] then some .nan
  else do
    let (whole, fraction, rest) ← mantissa? cs
    let scale ← exponent? rest
    return (assemble negative whole fraction scale).toBinary64

/-- The binary64 number that a numeral denotes. -/
def binary64? (cs : List Char) : Option Binary64 :=
  let (negative, rest) := sign cs
  unsigned? negative rest

end Turnstile.Decimal.Numeral
