/-
Durations.

A duration is a whole number of nanoseconds that fits into 2^64 seconds.
Instants are plain natural numbers of nanoseconds since the clock began,
and the time between two instants is a natural number as well. The rates
of this library are per second, so a span of nanoseconds also has a
binary64 reading in seconds, `secondsOf`.
-/
import Turnstile.Binary64.Arithmetic

namespace Turnstile

/-- Nanoseconds in a second. -/
def nanosPerSecond : Nat := 1000000000

/-- Nanoseconds in a millisecond. -/
def nanosPerMilli : Nat := 1000000

/-- The numbers that fit into sixty-four bits. -/
def wordBound : Nat := 18446744073709551616

/-- The longest duration, one nanosecond less than 2^64 seconds. -/
def longestNanos : Nat := 18446744073709551615999999999

/-- How many units cover a span: the whole ones, and one more if something
is left. -/
def unitsCovering (unit span : Nat) : Nat :=
  span / unit + min 1 (span % unit)

/-- A length of time in whole nanoseconds. -/
structure Duration where
  nanos : Nat
  le_longest : nanos ≤ longestNanos
deriving DecidableEq

namespace Duration

/-- The duration of so many nanoseconds, or the longest one if there are
too many. -/
def ofNanos (n : Nat) : Duration :=
  ⟨min n longestNanos, Nat.min_le_right ..⟩

/-- The longest duration. -/
def longest : Duration :=
  ⟨longestNanos, Nat.le_refl _⟩

instance : Inhabited Duration := ⟨ofNanos 0⟩

/-- Whole milliseconds, as a word: what exceeds sixty-four bits is lost. -/
def milliWord (d : Duration) : Nat :=
  d.nanos / nanosPerMilli % wordBound

end Duration

/-- A span of nanoseconds in seconds: the whole seconds and the remaining
nanoseconds are each turned into a number of seconds, and then added. -/
def secondsOf (nanos : Nat) : Binary64 :=
  .ofNat (nanos / nanosPerSecond) +
    .ofNat (nanos % nanosPerSecond) / .ofNat nanosPerSecond

end Turnstile
