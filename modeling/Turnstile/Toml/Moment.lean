/-
TOML dates and times.

A moment is a date, a time, or a date and a time, the latter with or
without an offset from universal time. Dates follow the Gregorian
calendar; the sixtieth second is allowed. Nothing of a moment is kept.
-/
import Turnstile.Text.Character

namespace Turnstile.Toml

open Text (isDigit positional)

/-- A leap year of the Gregorian calendar. -/
def isLeapYear (year : Nat) : Bool :=
  year % 4 == 0 && (year % 100 != 0 || year % 400 == 0)

/-- Days in a month. -/
def daysIn (year month : Nat) : Nat :=
  if month = 2 then if isLeapYear year then 29 else 28
  else if month = 4 ∨ month = 6 ∨ month = 9 ∨ month = 11 then 30
  else 31

/-- The digits name a day of the calendar. -/
def isDate (year month day : List Char) : Bool :=
  let (y, m, d) := (positional 10 year, positional 10 month, positional 10 day)
  (year ++ month ++ day).all isDigit && 1 ≤ m && m ≤ 12 && 1 ≤ d && d ≤ daysIn y m

/-- Two digits that spell a number up to `last`. -/
def isUpTo (last : Nat) (digits : List Char) : Bool :=
  digits.all isDigit && positional 10 digits ≤ last

/-- A date. -/
def date? : List Char → Option (List Char)
  | y :: y' :: y'' :: y''' :: '-' :: m :: m' :: '-' :: d :: d' :: rest =>
      if isDate [y, y', y'', y'''] [m, m'] [d, d'] then some rest else none
  | _ => none

/-- Drops a fraction of a second, if there is one. -/
def skipFraction : List Char → List Char
  | '.' :: c :: rest => if isDigit c then rest.dropWhile isDigit else '.' :: c :: rest
  | cs => cs

/-- A time of day. -/
def time? : List Char → Option (List Char)
  | h :: h' :: ':' :: m :: m' :: ':' :: s :: s' :: rest =>
      if isUpTo 23 [h, h'] && isUpTo 59 [m, m'] && isUpTo 60 [s, s'] then
        some (skipFraction rest)
      else none
  | _ => none

/-- The hours and minutes of an offset. -/
def offset? : List Char → Option (List Char)
  | h :: h' :: ':' :: m :: m' :: rest =>
      if isUpTo 23 [h, h'] && isUpTo 59 [m, m'] then some rest else none
  | _ => none

/-- Drops an offset from universal time, if there is one. -/
def skipOffset (cs : List Char) : List Char :=
  match cs with
  | 'Z' :: rest => rest
  | 'z' :: rest => rest
  | '+' :: rest => (offset? rest).getD cs
  | '-' :: rest => (offset? rest).getD cs
  | _ => cs

/-- Drops a time after a date, if there is one. -/
def skipTime (cs : List Char) : List Char :=
  match cs with
  | c :: rest =>
      if c = 'T' ∨ c = 't' ∨ c = ' ' then ((time? rest).map skipOffset).getD cs else cs
  | [] => []

/-- A date, a time, or both. -/
def moment? (cs : List Char) : Option (List Char) :=
  ((date? cs).map skipTime).or (time? cs)

end Turnstile.Toml
