/-
What the wait that a denied client is told is worth.

The interval of a rate is its exact nanoseconds, rounded to binary64 and then up
to a whole number, and one more if that many still fall short of a token
(Bucket/Rate.lean). Up to 2^53 nanoseconds the quotient is off by half a
nanosecond at most, so the additional one leaves half of one to spare. That is
more than the sum of the seconds can lose below 2^23 seconds. From there on the
sum can lose more, but by less than the share of a token that rounds up to one.
So the interval is worth a token in binary64 (`Spaced.one_le_credit`), and so is
every longer span, since longer spans have no fewer seconds.

Past 2^53 nanoseconds one of them is less than a rounding, and the interval may
be short of a token, but by no more than 2^-52 (`Spaced.credit_near_one`).

Chain (bucket): Bucket/Rate.lean below; Registry/Patience.lean and
Registry/Return.lean above.
-/
import Mathlib
import Turnstile.Proofs.Bucket.Rate
import Turnstile.Proofs.Bucket.Sound

namespace Turnstile

open Binary64

/-- A millionth of a token per second. -/
def Quota.slowest : Binary64 :=
  .ofRat false (1 / 1000000)

namespace Quota

variable {quota : Quota} {rate : Binary64} {nanos whole : ℕ}

-- =========================================================== the credit

/-- If the seconds are those of a span that is worth `q` exactly, the credit is
worth what `q` is rounded to. -/
theorem nearest_le_credit (hrate : Spaced rate) (hlong : nanos ≤ longestNanos) {q : ℚ}
    (hbound : Rank.nearest q ≤ rankBound) (span : ℚ)
    (hspan : span / nanosPerSecond ≤ (secondsOf nanos).magnitude)
    (hworth : q * exactNanos rate ≤ span) :
    Rank.nearest q ≤ (secondsOf nanos * rate).rank := by
  have hpos := magnitude_pos hrate.pos
  have hunit : (nanosPerSecond : ℚ) ≠ 0 := by norm_num [nanosPerSecond]
  rw [(credit_spec hrate hlong).2]
  refine le_min (Rank.nearest_mono ?_) hbound
  calc q = q * exactNanos rate / nanosPerSecond * rate.magnitude := by
        unfold exactNanos
        field_simp
    _ ≤ span / nanosPerSecond * rate.magnitude := by gcongr
    _ ≤ (secondsOf nanos).magnitude * rate.magnitude := by gcongr

theorem WholeNanos.le_longest (hwhole : WholeNanos rate whole) :
    whole + 1 ≤ longestNanos :=
  hwhole.lt_word.trans_le (by decide)

/-- An interval that is no more than the whole nanoseconds is worth a token. -/
theorem WholeNanos.nanos_cases (hrate : Spaced rate) (hwhole : WholeNanos rate whole) :
    (1 : Binary64).rank ≤ (secondsOf (tokenInterval rate).nanos * rate).rank
      ∨ (tokenInterval rate).nanos = whole + 1 := by
  have hfits : whole ≤ longestNanos := (Nat.le_succ _).trans hwhole.le_longest
  have hcredit := (credit_spec hrate hfits).1
  rw [hwhole.nanos_eq]
  split_ifs with hless
  · exact .inr rfl
  · left
    rw [hcredit.lt_iff Bucket.one_spec.1, not_lt] at hless
    exact hless

-- ====================================================== up to 2^53 nanoseconds

/-- Up to 2^53 the whole nanoseconds are at most a half below the exact ones. -/
theorem WholeNanos.exact_le (hrate : Spaced rate) (hwhole : WholeNanos rate whole)
    (hshort : whole < 2 * binade) : exactNanos rate ≤ whole + 1 / 2 := by
  have hwhole_lt : (whole : ℚ) < 2 ^ (53 : ℤ) := by
    have hcast : (whole : ℚ) < (2 * binade : ℕ) := by exact_mod_cast hshort
    exact hcast.trans_le (by norm_num [binade])
  have hge := hwhole.ge
  rw [hrate.roundedNanos_eq] at hge
  have hquot : exactNanos rate ≤ 2 ^ (53 : ℤ) := by
    by_contra hless
    have hvalue : Rank.value (Rank.nearest (2 ^ (53 : ℤ))) = 2 ^ (53 : ℤ) := by
      decide +kernel
    have hmono := Rank.value_le_value.mpr (Rank.nearest_mono (not_le.mp hless).le)
    linarith
  have herror := (abs_le.mp (Rank.nearest_error_of_le hrate.exactNanos_pos.le hquot
    (by decide))).1
  norm_num at herror
  linarith

/-- The additional nanosecond makes up for what is lost below 2^53. -/
theorem WholeNanos.one_le_credit (hrate : Spaced rate) (hwhole : WholeNanos rate whole)
    (hshort : whole < 2 * binade) :
    (1 : Binary64).rank ≤ (secondsOf (whole + 1) * rate).rank := by
  have hexact := hwhole.exact_le hrate hshort
  have hlong := hwhole.le_longest
  have hunit : (1 : Binary64).rank = Rank.nearest (1 - 2 ^ (-54 : ℤ)) := by decide +kernel
  have hbound : Rank.nearest (1 - 2 ^ (-54 : ℤ)) ≤ rankBound := by decide +kernel
  rw [hunit]
  by_cases hearly : (whole + 1) / nanosPerSecond < 2 ^ 23
  · -- the sum loses less than half a nanosecond
    have hsum := (abs_le.mp (secondsOf_error_of_short hlong hearly (by decide))).1
    refine nearest_le_credit hrate hlong hbound (whole + 1 / 2) ?_ ?_
    · unfold seconds at hsum
      norm_num [nanosPerSecond] at hsum ⊢
      linarith
    · have hpos := hrate.exactNanos_pos
      norm_num
      linarith
  · -- the sum loses less than a nanosecond, and what is missing then is less
    -- than 2^-54 of the interval
    have hlate : (whole + 1) / nanosPerSecond < 2 ^ 24 := by
      unfold nanosPerSecond
      unfold binade at hshort
      omega
    have hsum := (abs_le.mp (secondsOf_error_of_short hlong hlate (by decide))).1
    refine nearest_le_credit hrate hlong hbound (whole + 3 / 50) ?_ ?_
    · unfold seconds at hsum
      norm_num [nanosPerSecond] at hsum ⊢
      linarith
    · have hmany : (8388607999999999 : ℚ) ≤ whole := by
        have hnat : 8388607999999999 ≤ whole := by
          unfold nanosPerSecond at hearly
          omega
        exact_mod_cast hnat
      have hround := (abs_le.mp hrate.rounded_error).2
      have hlt := hwhole.lt
      norm_num at hround ⊢
      linarith

/-- An interval of at most 2^53 nanoseconds is worth a token. -/
theorem Spaced.one_le_credit (hrate : Spaced rate)
    (hshort : (tokenInterval rate).nanos ≤ 2 * binade) :
    (1 : Binary64).rank ≤ (secondsOf (tokenInterval rate).nanos * rate).rank := by
  obtain ⟨whole, hwhole⟩ := hrate.exists_whole
  rcases hwhole.nanos_cases hrate with hworth | hnanos
  · exact hworth
  · rw [hnanos] at hshort ⊢
    exact hwhole.one_le_credit hrate hshort

-- ========================================================== any interval

/-- Any interval is worth a token but for 2^-52. -/
theorem Spaced.credit_near_one (hrate : Spaced rate) :
    1 - 2 ^ (-52 : ℤ) ≤ (secondsOf (tokenInterval rate).nanos * rate).magnitude := by
  obtain ⟨whole, hwhole⟩ := hrate.exists_whole
  rcases hwhole.nanos_cases hrate with hworth | hnanos
  · have hone : (1 : ℚ) ≤ (secondsOf (tokenInterval rate).nanos * rate).magnitude :=
      Bucket.one_spec.2.symm.trans_le (Rank.value_le_value.mpr hworth)
    exact le_trans (by norm_num) hone
  rw [hnanos]
  have hvalue : Rank.value (Rank.nearest (1 - 2 ^ (-52 : ℤ))) = 1 - 2 ^ (-52 : ℤ) := by
    decide +kernel
  have hexact : (whole + 1) / nanosPerSecond < 2 * binade := by
    have hword := hwhole.lt_word
    unfold nanosPerSecond binade
    unfold wordBound at hword
    omega
  have hseconds := le_magnitude_secondsOf hwhole.le_longest hexact
  rw [← hvalue]
  refine Rank.value_le_value.mpr (nearest_le_credit hrate hwhole.le_longest
    (by decide +kernel) ((whole + 1 - 1 / 2) * (1 - 2 ^ (-53 : ℤ))) ?_ ?_)
  · unfold seconds at hseconds
    norm_num [nanosPerSecond] at hseconds ⊢
    linarith
  · have hround := (abs_le.mp hrate.rounded_error).1
    have hge := hwhole.ge
    norm_num at hround ⊢
    linarith

-- ======================================================== no slower rates

theorem exactNanos_le_of_slowest_le (hquota : quota.Usable)
    (hrate : slowest ≤ quota.rate) : exactNanos quota.rate ≤ 2 ^ (50 : ℤ) := by
  have hmillionth : (9 / 10000000 : ℚ) ≤ slowest.magnitude := by decide +kernel
  have hslow := ((nonneg_ofRat (by norm_num)).le_iff_magnitude hquota.rate_nonneg).mp hrate
  change slowest.magnitude ≤ quota.rate.magnitude at hslow
  unfold exactNanos
  rw [div_le_iff₀ (magnitude_pos hquota.rate_pos)]
  norm_num [nanosPerSecond]
  linarith

theorem spaced_of_slowest_le (hquota : quota.Usable) (hrate : slowest ≤ quota.rate) :
    Spaced quota.rate := by
  obtain ⟨hquot, hrank⟩ := quotient_spec hquota.rate_finite hquota.rate_pos
  refine ⟨hquota.rate_finite, hquota.rate_pos, ?_⟩
  rw [hquot.lt_iff (nonneg_ofNat wordBound), hrank]
  calc min (Rank.nearest (exactNanos quota.rate)) rankBound
      ≤ Rank.nearest (exactNanos quota.rate) := min_le_left ..
    _ ≤ Rank.nearest (2 ^ (50 : ℤ)) :=
        Rank.nearest_mono (exactNanos_le_of_slowest_le hquota hrate)
    _ < (ofNat wordBound).rank := by decide +kernel

/-- The interval is at most 2^52 nanoseconds, and worth a token. -/
theorem one_le_credit_interval (hquota : quota.Usable)
    (hrate : slowest ≤ quota.rate) :
    quota.retryAfter.nanos ≤ binade
      ∧ (1 : Binary64).rank
        ≤ (secondsOf quota.retryAfter.nanos * quota.rate).rank := by
  have hspaced := spaced_of_slowest_le hquota hrate
  have hquot := exactNanos_le_of_slowest_le hquota hrate
  have hshort : quota.retryAfter.nanos ≤ binade := by
    have herror := (abs_le.mp hspaced.nanos_error).2
    have hcast : ((tokenInterval quota.rate).nanos : ℚ) ≤ 4503599627370496 := by
      norm_num at herror hquot
      linarith
    exact_mod_cast hcast
  refine ⟨hshort, hspaced.one_le_credit (hshort.trans ?_)⟩
  exact Nat.le_mul_of_pos_left _ two_pos

end Quota

namespace Bucket

variable {quota : Quota} {bucket : Bucket} {now wait : ℕ}

/-- No capacity cuts off the first token. -/
theorem Sound.one_le_refill_iff (hquota : quota.Usable) (hb : bucket.Sound quota) :
    1 ≤ (bucket.refill quota now).tokens
      ↔ 1 ≤ bucket.tokens + secondsOf (now - bucket.creditedAt) * quota.rate := by
  have hcredit := nonneg_credit hquota (now - bucket.creditedAt)
  obtain ⟨hsum, -⟩ := hb.nonneg.add hcredit
  obtain ⟨hlesser, hrank⟩ := hsum.lesser quota.capacity_nonneg
  have hcapacity : (1 : Binary64).rank ≤ quota.capacity.rank := by
    refine Rank.value_le_value.mp ?_
    exact one_spec.2.trans_le (hquota.one_le_burst.trans_eq quota.capacity_magnitude.symm)
  show 1 ≤ (bucket.tokens + _).lesser quota.capacity ↔ _
  rw [one_spec.1.le_iff hlesser, one_spec.1.le_iff hsum, hrank, le_min_iff]
  exact and_iff_left hcapacity

/-- What adds up to one exactly does so in binary64. -/
theorem Sound.one_le_add (hquota : quota.Usable) (hb : bucket.Sound quota)
    (hone : 1 ≤ bucket.tokens.magnitude + (secondsOf wait * quota.rate).magnitude) :
    1 ≤ bucket.tokens + secondsOf wait * quota.rate := by
  obtain ⟨hsum, hrank⟩ := hb.nonneg.add (nonneg_credit hquota wait)
  rw [one_spec.1.le_iff hsum, hrank]
  refine le_min (Rank.le_nearest ?_) (rank_le_rankBound 1)
  exact one_spec.2.trans_le hone

/-- A bucket that has waited for a span that is worth a token has a token. -/
theorem Sound.one_le_refill_of_credit (hquota : quota.Usable) (hb : bucket.Sound quota)
    (hworth : (1 : Binary64).rank ≤ (secondsOf wait * quota.rate).rank)
    (hwait : wait ≤ now - bucket.creditedAt) :
    1 ≤ (bucket.refill quota now).tokens := by
  have hcredit := rank_credit_mono hquota hwait
  have hone : (1 : ℚ) ≤ (secondsOf (now - bucket.creditedAt) * quota.rate).magnitude := by
    rw [← one_spec.2]
    exact Rank.value_le_value.mpr (hworth.trans hcredit)
  rw [hb.one_le_refill_iff hquota]
  exact hb.one_le_add hquota (hone.trans (le_add_of_nonneg_left (magnitude_nonneg _)))

/-- A bucket that has waited for the interval of its rate has a token. -/
theorem Sound.one_le_refill_of_interval (hquota : quota.Usable)
    (hrate : Quota.slowest ≤ quota.rate) (hb : bucket.Sound quota)
    (hwait : quota.retryAfter.nanos ≤ now - bucket.creditedAt) :
    1 ≤ (bucket.refill quota now).tokens := by
  obtain ⟨-, hworth⟩ := Quota.one_le_credit_interval hquota hrate
  exact hb.one_le_refill_of_credit hquota hworth hwait

end Bucket

end Turnstile
