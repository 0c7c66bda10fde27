/-
Overrides from the environment.

Five variables override one setting each, independently of one another. A
variable that is set but does not hold what it should is reported and
otherwise ignored, so a typing error never changes a setting. Values are
read without the blanks around them; the report quotes them in full.
-/
import Turnstile.Event
import Turnstile.Settings.Fault

namespace Turnstile.Settings

/-- A variable of the environment that overrides a setting. -/
inductive Variable where
  | port
  | enabled
  | rps
  | burst
  | evictionInterval
deriving DecidableEq

namespace Variable

/-- All variables, in the order in which they are looked up. -/
def all : List Variable :=
  [.port, .enabled, .rps, .burst, .evictionInterval]

/-- The name of a variable. -/
def name : Variable → String
  | .port => "APP_PORT"
  | .enabled => "RATE_LIMITER_ENABLED"
  | .rps => "RATE_LIMITER_RPS"
  | .burst => "RATE_LIMITER_BURST"
  | .evictionInterval => "RATE_LIMITER_TTL"

/-- Reads `true` or `false`. -/
def boolean? (cs : List Char) : Option Bool :=
  if cs = ['t', 'r', 'u', 'e'] then some true
  else if cs = ['f', 'a', 'l', 's', 'e'] then some false
  else none

/-- A reader without a reason for its failures. -/
def unexplained {α : Type} (result : Option α) : Except (Option String) α :=
  match result with
  | some a => .ok a
  | none => .error none

/-- The settings with the variable's value in place, or the reason, if one
is given, why the text is no value. -/
def apply (settings : Settings) (text : String) : Variable → Except (Option String) Settings
  | .port => do
      let n ← unexplained (Text.bounded? 65536 (Text.trim text.toList))
      return { settings with server.port := UInt16.ofNat n }
  | .enabled => do
      let b ← unexplained (boolean? (Text.trim text.toList))
      return { settings with rateLimit.enabled := b }
  | .rps => do
      let x ← unexplained (Decimal.Numeral.binary64? (Text.trim text.toList))
      return { settings with rateLimit.rps := x }
  | .burst => do
      let n ← unexplained (Text.bounded? 4294967296 (Text.trim text.toList))
      return { settings with rateLimit.burst := UInt32.ofNat n }
  | .evictionInterval =>
      match durationOf text with
      | .ok d => .ok { settings with rateLimit.evictionInterval := d }
      | .error fault => .error (some fault.message)

/-- The settings after looking up one variable, and the report if its text
is no value. -/
def override (lookup : String → Option String) (settings : Settings)
    (which : Variable) : Settings × List Event :=
  match lookup which.name with
  | none => (settings, [])
  | some text =>
      match which.apply settings text with
      | .ok changed => (changed, [])
      | .error reason => (settings, [.overrideIgnored which.name text reason])

end Variable

/-- Looks up variables in order. -/
def overrideEach (lookup : String → Option String) (settings : Settings) :
    List Variable → Settings × List Event
  | [] => (settings, [])
  | next :: rest =>
      let (changed, events) := Variable.override lookup settings next
      let (final, more) := overrideEach lookup changed rest
      (final, events ++ more)

/-- The settings with the overrides of an environment. -/
def overridden (lookup : String → Option String) (settings : Settings) :
    Settings × List Event :=
  overrideEach lookup settings Variable.all

end Turnstile.Settings
