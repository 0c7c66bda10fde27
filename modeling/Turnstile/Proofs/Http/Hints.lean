/-
What the two hints of a denial are worth.

A hint is the least word that is enough, or the largest word if none is
(`LeastWord`). Everything follows from one equivalence: `unitsCovering` is the
fewest units that cover a span (`unitsCovering_le_iff`). So a hint never invites an
early return, it grows with the wait, and the milliseconds and the seconds agree
with each other wherever both are enough.

The hints are computed in words of a fixed size. Read step by step, where a step
that does not fit gives nothing, they come to the same (`millisInWords?_eq`,
`secondsInWords?_eq`): a wait has less than 2^94 nanoseconds, and the one addition
that could leave its word saturates.

Chain (service): Duration/Covering.lean below, Http/Retry.lean and Http/Denial.lean
above.
-/
import Mathlib
import Turnstile.Http.Reply
import Turnstile.Proofs.Duration.Covering

namespace Turnstile

variable {unit span : ℕ}

-- ================================================================ least words

/-- The least word that is enough, or the largest word if none is. -/
def LeastWord (enough : ℕ → Prop) (word : ℕ) : Prop :=
  IsLeast {n | n < wordBound ∧ enough n} word
    ∨ (∀ n < wordBound, ¬ enough n) ∧ word = wordBound - 1

/-- What is enough from some number on, cut to a word. -/
theorem leastWord_min {enough : ℕ → Prop} {least : ℕ}
    (henough : ∀ n, least ≤ n ↔ enough n) :
    LeastWord enough (min least (wordBound - 1)) := by
  have hword : 0 < wordBound := by decide
  by_cases hfits : least < wordBound
  · left
    rw [Nat.min_eq_left (Nat.le_sub_one_of_lt hfits)]
    refine ⟨⟨hfits, (henough least).mp le_rfl⟩, ?_⟩
    rintro n ⟨-, hn⟩
    exact (henough n).mpr hn
  · right
    refine ⟨fun n hn hsuffices => ?_, Nat.min_eq_right ?_⟩
    · exact hfits (((henough n).mpr hsuffices).trans_lt hn)
    · omega

namespace Http

variable (wait : Duration)

theorem retrySeconds_eq :
    retrySeconds wait
      = min (max 1 (unitsCovering nanosPerSecond wait.nanos)) (wordBound - 1) := by
  have hword : max 1 (wordBound - 1) = wordBound - 1 := by decide
  rw [retrySeconds, max_min_distrib_left, hword]

theorem leastWord_retryMillis :
    LeastWord (fun millis => wait.nanos ≤ millis * nanosPerMilli) (retryMillis wait) :=
  leastWord_min fun _ => unitsCovering_le_iff (by decide)

theorem leastWord_retrySeconds :
    LeastWord (fun seconds => 1 ≤ seconds ∧ wait.nanos ≤ seconds * nanosPerSecond)
      (retrySeconds wait) := by
  rw [retrySeconds_eq]
  refine leastWord_min fun seconds => ?_
  rw [max_le_iff, unitsCovering_le_iff (by decide)]

variable {wait}

/-- Milliseconds that fit into a word are enough. -/
theorem le_retryMillis_mul (hfits : wait.nanos ≤ (wordBound - 1) * nanosPerMilli) :
    wait.nanos ≤ retryMillis wait * nanosPerMilli := by
  rw [retryMillis, Nat.min_eq_left ((unitsCovering_le_iff (by decide)).mpr hfits)]
  exact le_unitsCovering_mul (by decide) wait.nanos

/-- Seconds that fit into a word are enough. -/
theorem le_retrySeconds_mul (hfits : wait.nanos ≤ (wordBound - 1) * nanosPerSecond) :
    wait.nanos ≤ retrySeconds wait * nanosPerSecond := by
  rw [retrySeconds, Nat.min_eq_left ((unitsCovering_le_iff (by decide)).mpr hfits)]
  exact (le_unitsCovering_mul (by decide) wait.nanos).trans
    (Nat.mul_le_mul_right _ (le_max_right ..))

theorem retryMillis_mono {longer : Duration} (hle : wait.nanos ≤ longer.nanos) :
    retryMillis wait ≤ retryMillis longer :=
  min_le_min_right _ (unitsCovering_mono (by decide) hle)

theorem retrySeconds_mono {longer : Duration} (hle : wait.nanos ≤ longer.nanos) :
    retrySeconds wait ≤ retrySeconds longer :=
  max_le_max_left _ (min_le_min_right _ (unitsCovering_mono (by decide) hle))

-- ================================================== milliseconds and seconds

/-- The milliseconds are no more than the seconds, where these are enough. -/
theorem retryMillis_le (hfits : wait.nanos ≤ (wordBound - 1) * nanosPerSecond) :
    retryMillis wait ≤ 1000 * retrySeconds wait := by
  refine (min_le_left _ _).trans ((unitsCovering_le_iff (by decide)).mpr ?_)
  calc wait.nanos
      ≤ retrySeconds wait * nanosPerSecond := le_retrySeconds_mul hfits
    _ = 1000 * retrySeconds wait * nanosPerMilli := by
        unfold nanosPerSecond nanosPerMilli
        ring

/-- The seconds are the milliseconds rounded up, or one, where these are enough. -/
theorem retrySeconds_le (hfits : wait.nanos ≤ (wordBound - 1) * nanosPerMilli) :
    retrySeconds wait ≤ max 1 (retryMillis wait ⌈/⌉ 1000) := by
  refine max_le_max_left _ ((min_le_left _ _).trans ?_)
  rw [unitsCovering_le_iff (by decide)]
  have hcovers : retryMillis wait ≤ 1000 * (retryMillis wait ⌈/⌉ 1000) :=
    (ceilDiv_le_iff_le_mul (by decide)).mp le_rfl
  calc wait.nanos
      ≤ retryMillis wait * nanosPerMilli := le_retryMillis_mul hfits
    _ ≤ 1000 * (retryMillis wait ⌈/⌉ 1000) * nanosPerMilli := Nat.mul_le_mul_right _ hcovers
    _ = retryMillis wait ⌈/⌉ 1000 * nanosPerSecond := by
        unfold nanosPerSecond nanosPerMilli
        ring

-- ======================================================== the steps, in words

/-- A value, if it fits into so many bits. -/
def inBits? (bits value : ℕ) : Option ℕ :=
  if value < 2 ^ bits then some value else none

/-- A quotient rounded up in so many bits: one is added if something is left. -/
def quotientInBits? (bits span unit : ℕ) : Option ℕ :=
  if 0 < span % unit then inBits? bits (span / unit + 1) else inBits? bits (span / unit)

/-- The milliseconds, step by step. A wait comes as whole seconds and nanoseconds. It is
put together and divided in 128 bits, and cut to 64 at the end. -/
def millisInWords? (seconds nanos : ℕ) : Option ℕ := do
  let whole ← inBits? 128 (seconds * nanosPerSecond)
  let span ← inBits? 128 (whole + nanos)
  let millis ← quotientInBits? 128 span nanosPerMilli
  inBits? 64 (min millis (2 ^ 64 - 1))

/-- The seconds, step by step. One is added in 64 bits if nanoseconds are left, and a
sum that does not fit becomes the largest word. -/
def secondsInWords? (seconds nanos : ℕ) : Option ℕ :=
  let sum := (inBits? 64 (seconds + if 0 < nanos then 1 else 0)).getD (2 ^ 64 - 1)
  inBits? 64 (max sum 1)

variable {bits value : ℕ}

theorem inBits?_of_lt (hfits : value < 2 ^ bits) : inBits? bits value = some value :=
  if_pos hfits

theorem quotientInBits?_of_lt (hfits : span + 1 < 2 ^ bits) :
    quotientInBits? bits span unit = some (unitsCovering unit span) := by
  have hquotient : span / unit ≤ span := Nat.div_le_self span unit
  unfold quotientInBits? unitsCovering
  split
  case isTrue hrest => rw [inBits?_of_lt (by omega), Nat.min_eq_left hrest]
  case isFalse hwhole => rw [inBits?_of_lt (by omega), Nat.eq_zero_of_not_pos hwhole]; rfl

theorem getD_inBits? (value bits : ℕ) :
    (inBits? bits value).getD (2 ^ bits - 1) = min value (2 ^ bits - 1) := by
  have hpos := Nat.two_pow_pos bits
  unfold inBits?
  split
  · rw [Option.getD_some, Nat.min_eq_left (by omega)]
  · rw [Option.getD_none, Nat.min_eq_right (by omega)]

theorem millisInWords?_eq :
    millisInWords? (wait.nanos / nanosPerSecond) (wait.nanos % nanosPerSecond)
      = some (retryMillis wait) := by
  have hlong : wait.nanos < 2 ^ 94 := wait.le_longest.trans_lt (by decide)
  have hsplit := Nat.div_add_mod' wait.nanos nanosPerSecond
  have hword : (2 ^ 64 : ℕ) = wordBound := by decide
  simp only [millisInWords?, Option.bind_eq_bind]
  rw [inBits?_of_lt (by omega), Option.bind_some, hsplit, inBits?_of_lt (by omega),
    Option.bind_some, quotientInBits?_of_lt (by omega), Option.bind_some, hword]
  exact inBits?_of_lt (by omega)

theorem secondsInWords?_eq :
    secondsInWords? (wait.nanos / nanosPerSecond) (wait.nanos % nanosPerSecond)
      = some (retrySeconds wait) := by
  have hword : (2 ^ 64 : ℕ) = wordBound := by decide
  have hcarry : (if 0 < wait.nanos % nanosPerSecond then 1 else 0)
      = min 1 (wait.nanos % nanosPerSecond) := by
    split <;> omega
  simp only [secondsInWords?]
  rw [getD_inBits?, hcarry, max_comm, hword]
  exact inBits?_of_lt (by omega)

-- ================================================================== the hints

/-- What the hints of any wait are. Each is the least word that is enough, or the
largest word if none is; the seconds are at least one. No step of computing them
leaves its word. A longer wait gives no smaller hint, and where both are enough they
agree up to rounding. -/
theorem retry_hints (wait : Duration) :
    LeastWord (fun millis => wait.nanos ≤ millis * nanosPerMilli) (retryMillis wait)
      ∧ LeastWord (fun seconds => 1 ≤ seconds ∧ wait.nanos ≤ seconds * nanosPerSecond)
        (retrySeconds wait)
      ∧ millisInWords? (wait.nanos / nanosPerSecond) (wait.nanos % nanosPerSecond)
        = some (retryMillis wait)
      ∧ secondsInWords? (wait.nanos / nanosPerSecond) (wait.nanos % nanosPerSecond)
        = some (retrySeconds wait)
      ∧ (∀ longer : Duration, wait.nanos ≤ longer.nanos →
        retryMillis wait ≤ retryMillis longer ∧ retrySeconds wait ≤ retrySeconds longer)
      ∧ ((∃ millis < wordBound, wait.nanos ≤ millis * nanosPerMilli) →
        (∃ seconds < wordBound, wait.nanos ≤ seconds * nanosPerSecond) →
        retryMillis wait ≤ 1000 * retrySeconds wait
          ∧ retrySeconds wait ≤ max 1 (retryMillis wait ⌈/⌉ 1000)) := by
  refine ⟨leastWord_retryMillis wait, leastWord_retrySeconds wait, millisInWords?_eq,
    secondsInWords?_eq, fun longer hle => ⟨retryMillis_mono hle, retrySeconds_mono hle⟩, ?_⟩
  rintro ⟨millis, hmillis, hmilli⟩ ⟨seconds, hseconds, hsecond⟩
  exact ⟨retryMillis_le
      (hsecond.trans (Nat.mul_le_mul_right _ (Nat.le_sub_one_of_lt hseconds))),
    retrySeconds_le
      (hmilli.trans (Nat.mul_le_mul_right _ (Nat.le_sub_one_of_lt hmillis)))⟩

/-- One nanosecond past a second is 1001 milliseconds and two seconds. For the longest
wait no word is enough, in either unit. -/
theorem retry_hints_of_carry :
    let wait := Duration.ofNanos 1000000001
    retryMillis wait = 1001 ∧ retrySeconds wait = 2
      ∧ retryMillis wait ≤ 1000 * retrySeconds wait
      ∧ retrySeconds wait ≤ max 1 (retryMillis wait ⌈/⌉ 1000)
      ∧ retryMillis .longest = wordBound - 1 ∧ retrySeconds .longest = wordBound - 1 := by
  intro wait
  obtain ⟨-, -, -, -, -, hagree⟩ := retry_hints wait
  obtain ⟨hmillis, hseconds⟩ := hagree ⟨1001, by decide, by decide⟩ ⟨2, by decide, by decide⟩
  exact ⟨by decide, by decide, hmillis, hseconds, by decide, by decide⟩

end Http

end Turnstile
