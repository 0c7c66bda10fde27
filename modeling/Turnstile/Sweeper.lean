/-
The background sweeper's timer.

A sweeper waits for a deadline, or has ended, or was never there. Timers
go off on whole milliseconds only, so a deadline is met at the first
whole millisecond that is not before it.

After a sweep the next deadline follows the last one at the usual
distance as long as the sweeper is at most five milliseconds late, so it
keeps its rhythm; when it is later than that, the next deadline is a
period from now.
-/
import Turnstile.Duration.Basic

namespace Turnstile

/-- What the background sweeper is doing. -/
inductive Sweeper where
  /-- There is none, because the limiter is not enabled. -/
  | absent
  /-- It waits for a deadline. -/
  | waiting (deadline : Nat)
  /-- It was told to stop, and did. -/
  | stopped
  /-- It could not set its first deadline. -/
  | failed
deriving DecidableEq

namespace Sweeper

/-- The latest instant that a deadline can name. -/
def latestInstant : Nat := 9223372036854775807999999999

/-- By how much a sweeper may be late and still keep its rhythm. -/
def tolerance : Nat := 5000000

-- ======================================================================== ticks

/-- Whole milliseconds up to an instant. -/
def tickBefore (instant : Nat) : Nat :=
  instant / nanosPerMilli

/-- The first whole millisecond that is not before an instant. -/
def tickAfter (instant : Nat) : Nat :=
  unitsCovering nanosPerMilli instant

/-- Whole milliseconds add up. -/
theorem tickBefore_add (instant millis : Nat) :
    tickBefore (instant + millis * nanosPerMilli) = tickBefore instant + millis := by
  have positive : 0 < nanosPerMilli := by decide
  rw [tickBefore, tickBefore, Nat.add_mul_div_right _ _ positive]

/-- An instant whose tick has come is not in the future. -/
theorem le_of_tickAfter_le {instant now : Nat}
    (come : tickAfter instant ≤ tickBefore now) : instant ≤ now := by
  simp only [tickAfter, tickBefore, unitsCovering, nanosPerMilli] at come
  omega

-- ==================================================================== deadlines

/-- Time between two sweeps: the interval, but at least a millisecond. -/
def period (interval : Duration) : Nat :=
  max interval.nanos nanosPerMilli

/-- A period takes some time. -/
theorem period_pos (interval : Duration) : 0 < period interval :=
  Nat.lt_of_lt_of_le (by decide) (Nat.le_max_right ..)

/-- The deadline after a sweep at `now` that was due at `deadline`. -/
def nextDeadline (now period deadline : Nat) : Nat :=
  if tolerance < now - deadline then now + period else deadline + period

/-- The next deadline is later than one that is due, so only finitely many
deadlines are due at any instant. -/
theorem nextDeadline_nearer {now period deadline : Nat} (positive : 0 < period)
    (due : tickAfter deadline ≤ tickBefore now) :
    now + 1 - nextDeadline now period deadline < now + 1 - deadline := by
  have past := le_of_tickAfter_le due
  unfold nextDeadline
  split <;> omega

end Sweeper

end Turnstile
