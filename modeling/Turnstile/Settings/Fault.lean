/-
What can be wrong with a setting.

The limiter cannot run with a rate that is not a positive number, with no
burst, or with no time between sweeps; and a duration may be written in a
way that makes no sense. A limiter that is not enabled runs with anything.
-/
import Turnstile.Decimal.Layout
import Turnstile.Duration.Text
import Turnstile.Settings.Basic

namespace Turnstile.Settings

/-- A setting that cannot be used. -/
inductive Fault where
  | invalidRate (rps : Binary64)
  | invalidBurst
  | invalidEvictionInterval
  | invalidDuration (text : String)
deriving DecidableEq

/-- Rates are shown with the fewest digits that read back, never with an
exponent, and whole numbers without a point; of two equally near texts
the larger. -/
def rateLayout : Decimal.Layout :=
  ⟨fun _ => true, false, .up⟩

/-- A rate as text. -/
def shownRate : Binary64 → String
  | .nan => "NaN"
  | .infinity negative => if negative then "-inf" else "inf"
  | .finite negative rank => rateLayout.text negative rank

/-- The text of a fault. -/
def Fault.message : Fault → String
  | .invalidRate rps =>
      "rate_limit.rps must be finite and greater than 0 (got " ++ shownRate rps ++ ")"
  | .invalidBurst => "rate_limit.burst must be at least 1"
  | .invalidEvictionInterval => "rate_limit.eviction_interval must be greater than 0"
  | .invalidDuration text => "invalid duration '" ++ text ++ "'"

/-- The first fault of the limiter's settings, if there is one. -/
def RateLimit.fault? (limits : RateLimit) : Option Fault :=
  if !limits.enabled then none
  else if !limits.rps.isFinite || limits.rps ≤ 0 then some (.invalidRate limits.rps)
  else if limits.burst = 0 then some .invalidBurst
  else if limits.evictionInterval.nanos = 0 then some .invalidEvictionInterval
  else none

/-- A duration from text, or the fault that the text is none. -/
def durationOf (text : String) : Except Fault Duration :=
  match Duration.parse? text with
  | some d => .ok d
  | none => .error (.invalidDuration text)

end Turnstile.Settings
