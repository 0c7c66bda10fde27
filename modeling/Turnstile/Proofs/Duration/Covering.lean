/-
How many units cover a span.

They are the fewest that do: `unitsCovering_le_iff` is an equivalence, and nothing else
is to be known of `unitsCovering`. It grows with the span (`unitsCovering_mono`), covers
it (`le_unitsCovering_mul`), and is what was asked for where the span is made of units
(`unitsCovering_mul`). The whole milliseconds in a span are a word up to 2^64
nanoseconds and beyond (`Duration.milliWord_of_le`).

Chain (duration): below the ticks of the sweeper (Limiter/Spans.lean,
Limiter/Rhythm.lean), the hints of a denial (Http/Hints.lean) and what is logged
(Http/Denial.lean, Settings/Layers.lean).
-/
import Mathlib
import Turnstile.Duration.Basic

namespace Turnstile

variable {unit span longer n : ℕ}

/-- The units that cover a span are the fewest that do. -/
theorem unitsCovering_le_iff (hunit : 0 < unit) :
    unitsCovering unit span ≤ n ↔ span ≤ n * unit := by
  have hsplit := Nat.div_add_mod' span unit
  unfold unitsCovering
  by_cases hwhole : span % unit = 0
  · rw [hwhole, Nat.add_zero] at hsplit
    rw [hwhole, Nat.min_zero, Nat.add_zero, ← Nat.mul_le_mul_right_iff hunit, hsplit]
  · have hne : span ≠ n * unit := by
      rintro rfl
      exact hwhole (Nat.mul_mod_left n unit)
    rw [Nat.min_eq_left (Nat.pos_of_ne_zero hwhole), Nat.succ_le_iff,
      Nat.div_lt_iff_lt_mul hunit]
    exact ⟨le_of_lt, fun hle => lt_of_le_of_ne hle hne⟩

theorem le_unitsCovering_mul (hunit : 0 < unit) (span : ℕ) :
    span ≤ unitsCovering unit span * unit :=
  (unitsCovering_le_iff hunit).mp le_rfl

theorem unitsCovering_mono (hunit : 0 < unit) (hle : span ≤ longer) :
    unitsCovering unit span ≤ unitsCovering unit longer :=
  (unitsCovering_le_iff hunit).mpr (hle.trans (le_unitsCovering_mul hunit longer))

theorem unitsCovering_mul (hunit : 0 < unit) (n : ℕ) : unitsCovering unit (n * unit) = n := by
  refine eq_of_forall_ge_iff fun m => ?_
  rw [unitsCovering_le_iff hunit, Nat.mul_le_mul_right_iff hunit]

/-- Nothing is lost of the milliseconds of 2^64 nanoseconds. -/
theorem Duration.milliWord_of_le {d : Duration} (hshort : d.nanos ≤ wordBound) :
    d.milliWord = d.nanos / nanosPerMilli := by
  refine Nat.mod_eq_of_lt (lt_of_le_of_lt (Nat.div_le_div_right hshort) ?_)
  decide

end Turnstile
