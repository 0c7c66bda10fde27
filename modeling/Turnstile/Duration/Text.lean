/-
Durations as text: `500ms`, `1h30m`, `1.5s`.

The grammar, once blanks at both ends are gone, is

    duration = 0 | term {term}
    term     = number unit
    number   = digits [. [digits]] | . digits
    unit     = ns | us | µs | ms | s | m | h

with nothing between terms. The terms are read first (`terms?`); their
amounts are then added up in binary64 and the total rounded to whole
nanoseconds (`total?`). `Term.exact` is the same amount without rounding.
-/
import Turnstile.Decimal.Numeral
import Turnstile.Duration.Basic
import Turnstile.Text.Character

namespace Turnstile.Duration

open Text (isDigit)

-- ==================================================================== the terms

/-- A unit of time. -/
inductive TimeUnit where
  | nanosecond
  | microsecond
  | millisecond
  | second
  | minute
  | hour
deriving DecidableEq

/-- Nanoseconds in a unit. -/
def TimeUnit.nanos : TimeUnit → Nat
  | .nanosecond => 1
  | .microsecond => 1000
  | .millisecond => 1000000
  | .second => 1000000000
  | .minute => 60000000000
  | .hour => 3600000000000

/-- The unit with the given name. The micro sign is U+00B5. -/
def TimeUnit.ofName? : List Char → Option TimeUnit
  | ['n', 's'] => some .nanosecond
  | ['u', 's'] => some .microsecond
  | ['\u00b5', 's'] => some .microsecond
  | ['m', 's'] => some .millisecond
  | ['s'] => some .second
  | ['m'] => some .minute
  | ['h'] => some .hour
  | _ => none

/-- A number of units. -/
structure Term where
  amount : Decimal
  unit : TimeUnit
deriving DecidableEq

/-- The nanoseconds of a term, exactly. -/
def Term.exact (t : Term) : Rat :=
  t.amount.toRat * (t.unit.nanos : Rat)

/-- The nanoseconds of a term in binary64. -/
def Term.nanos (t : Term) : Binary64 :=
  t.amount.toBinary64 * .ofNat t.unit.nanos

-- ====================================================================== reading

/-- A character of a number. -/
def isNumeric (c : Char) : Bool :=
  isDigit c || c == '.'

/-- The terms of a text, if it is a sequence of terms. Each step takes the
longest run of numeric characters and the longest run of others. -/
def terms? (cs : List Char) : Option (List Term) :=
  if cs = [] then some []
  else
    let number := cs.takeWhile isNumeric
    let rest := cs.dropWhile isNumeric
    let name := rest.takeWhile (!isNumeric ·)
    let rest := rest.dropWhile (!isNumeric ·)
    if number = [] then none
    else do
      let amount ← Decimal.Numeral.fixed? number
      let unit ← TimeUnit.ofName? name
      let others ← terms? rest
      return ⟨amount, unit⟩ :: others
termination_by cs.length
decreasing_by
  have split := congrArg List.length (List.takeWhile_append_dropWhile
    (p := isNumeric) (l := cs))
  have nonempty : 0 < (cs.takeWhile isNumeric).length :=
    List.length_pos_iff.mpr (by assumption)
  have shorter := (List.dropWhile_sublist (l := cs.dropWhile isNumeric)
    (!isNumeric ·)).length_le
  rw [List.length_append] at split
  omega

/-- The sum of the terms in binary64, from left to right, rounded to whole
nanoseconds, halves away from zero. A total beyond 2^64 is refused, and
2^64 itself counts as one less. -/
def total? (terms : List Term) : Option Duration :=
  let sum := terms.foldl (fun sum (t : Term) => sum + t.nanos) (Binary64.zero false)
  let nanos := sum.round
  if nanos.isFinite ∧ nanos ≤ .ofNat wordBound then
    some (ofNanos (nanos.saturate (wordBound - 1)))
  else none

/-- The duration that a text denotes. -/
def parse? (text : String) : Option Duration :=
  match Text.trim text.toList with
  | [] => none
  | ['0'] => some (ofNanos 0)
  | cs => (terms? cs).bind total?

end Turnstile.Duration
