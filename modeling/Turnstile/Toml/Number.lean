/-
TOML numbers.

Integers are decimal, with an optional sign and no leading zeros, or
hexadecimal, octal or binary after `0x`, `0o`, `0b`; they fit into
sixty-four bits with sign. Floats have a fraction, an exponent, or both,
or are `inf` or `nan`. A single underscore may stand between two digits.
A float that is too large is refused, but one that is too small below
zero is minus infinity.
-/
import Turnstile.Decimal.Basic
import Turnstile.Text.Character
import Turnstile.Toml.Value

namespace Turnstile.Toml

open Text (isDigit isHexDigit positional)

-- ======================================================================= digits

/-- The digits that continue a number, each with at most one underscore
before it. -/
def moreDigits (isDigit : Char → Bool) : List Char → List Char × List Char
  | [] => ([], [])
  | '_' :: c :: rest =>
      if isDigit c then
        let (digits, rest) := moreDigits isDigit rest
        (c :: digits, rest)
      else ([], '_' :: c :: rest)
  | c :: rest =>
      if isDigit c then
        let (digits, rest) := moreDigits isDigit rest
        (c :: digits, rest)
      else ([], c :: rest)

/-- A number's digits, at least one, leading zeros allowed. -/
def digits? (isDigit : Char → Bool) : List Char → Option (List Char × List Char)
  | [] => none
  | c :: rest =>
      if isDigit c then
        let (digits, rest) := moreDigits isDigit rest
        some (c :: digits, rest)
      else none

/-- The digits before the point: a single zero, or no leading zero. -/
def whole? : List Char → Option (List Char × List Char)
  | '0' :: rest => some (['0'], rest)
  | cs => digits? isDigit cs

/-- A sign, if there is one, and what follows. -/
def signed (cs : List Char) : Bool × List Char :=
  match cs with
  | '-' :: rest => (true, rest)
  | '+' :: rest => (false, rest)
  | _ => (false, cs)

-- ===================================================================== integers

/-- An integer, if it fits into sixty-four bits with sign. -/
def integer? (n : Int) : Option Value :=
  if -9223372036854775808 ≤ n ∧ n ≤ 9223372036854775807 then some (.integer n) else none

/-- The number after the mark of a base. -/
def inBase? (base : Nat) (isDigit : Char → Bool) (cs : List Char) :
    Option (Value × List Char) := do
  let (digits, rest) ← digits? isDigit cs
  let value ← integer? (positional base digits)
  return (value, rest)

-- ======================================================================= floats

/-- A float, unless it is too large. -/
def float? (d : Decimal) : Option Value :=
  let x := d.toBinary64
  if x = .infinity false then none else some (.float x)

/-- An exponent, or no exponent. -/
def scale? (cs : List Char) : Option (Int × List Char) :=
  match cs with
  | [] => some (0, [])
  | c :: rest =>
      if c = 'e' ∨ c = 'E' then do
        let (negative, rest) := signed rest
        let (digits, rest) ← digits? isDigit rest
        let n : Int := positional 10 digits
        return (if negative then -n else n, rest)
      else some (0, cs)

/-- A float without fraction or exponent. -/
def special? (negative : Bool) : List Char → Option (Value × List Char)
  | 'i' :: 'n' :: 'f' :: rest => some (.float (.infinity negative), rest)
  | 'n' :: 'a' :: 'n' :: rest => some (.float .nan, rest)
  | _ => none

/-- A decimal integer or a float, after its sign. -/
def decimal? (negative : Bool) (cs : List Char) : Option (Value × List Char) := do
  let (whole, rest) ← whole? cs
  match rest with
  | '.' :: rest => do
      let (fraction, rest) ← digits? isDigit rest
      let (scale, rest) ← scale? rest
      let value ← float? ⟨negative, positional 10 (whole ++ fraction), scale - fraction.length⟩
      return (value, rest)
  | c :: _ =>
      if c = 'e' ∨ c = 'E' then do
        let (scale, rest) ← scale? rest
        let value ← float? ⟨negative, positional 10 whole, scale⟩
        return (value, rest)
      else do
        let n : Int := positional 10 whole
        let value ← integer? (if negative then -n else n)
        return (value, rest)
  | [] => do
      let n : Int := positional 10 whole
      let value ← integer? (if negative then -n else n)
      return (value, [])

/-- A number of any kind. -/
def number? (cs : List Char) : Option (Value × List Char) :=
  match cs with
  | '0' :: 'x' :: rest => inBase? 16 isHexDigit rest
  | '0' :: 'o' :: rest => inBase? 8 (fun c => '0' ≤ c && c ≤ '7') rest
  | '0' :: 'b' :: rest => inBase? 2 (fun c => c == '0' || c == '1') rest
  | _ =>
      let (negative, rest) := signed cs
      (special? negative rest).or (decimal? negative rest)

end Turnstile.Toml
