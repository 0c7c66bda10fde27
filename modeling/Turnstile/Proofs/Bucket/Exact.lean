/-
One refill on whole fractions of a second, exactly.

Let the rate be a multiple of 2^-11 tokens per second, and the span one of
2^-9 seconds. Then credit and count are multiples of 2^-20, and the burst
is below 2^32, so nothing up to the burst needs more than the 53 bits of a
significand: a credit below the burst is exact (`credit_exact`). A larger
one may be rounded, or overflow, but never to less than the burst
(`burst_le_credit_of_grid`), and then the cap decides. So the refill is
that of an exact account (`Sound.refill_exact`).

Chain (account): Bucket/Accuracy.lean and Duration/Seconds.lean below;
Registry/Textbook.lean above.
-/
import Mathlib
import Turnstile.Proofs.Bucket.Accuracy

namespace Turnstile

open Binary64

variable {quota : Quota}

/-- On this grid no rate is below 2^-11. -/
theorem Quota.Usable.seconds_le (hquota : quota.Usable)
    (hrate : OnGrid (-11) quota.perSecond) (nanos : ℕ) :
    seconds nanos ≤ 2 ^ (11 : ℤ) * (quota.perSecond * seconds nanos) := by
  have hunit := hrate.unit_le hquota.perSecond_pos
  have hsec := mul_le_mul_of_nonneg_right hunit (seconds_nonneg nanos)
  norm_num at hsec ⊢
  linarith

namespace Bucket

variable {bucket : Bucket} {now nanos : ℕ}

theorem le_longestNanos (hshort : seconds nanos < 2 ^ (44 : ℤ)) :
    nanos ≤ longestNanos := by
  unfold seconds at hshort
  rw [div_lt_iff₀ (by norm_num [nanosPerSecond])] at hshort
  have hcast : (nanos : ℚ) ≤ longestNanos := by
    refine hshort.le.trans ?_
    norm_num [nanosPerSecond, longestNanos]
  exact_mod_cast hcast

/-- The credit of a span that is not too long is one rounding of the exact
credit, or the end of the grid. -/
theorem credit_of_short (hquota : quota.Usable)
    (hspan : OnGrid (-9) (seconds nanos)) (hshort : seconds nanos < 2 ^ (44 : ℤ)) :
    (secondsOf nanos * quota.rate).magnitude
      = min (Rank.value (Rank.nearest (quota.perSecond * seconds nanos)))
          (2 ^ (1024 : ℤ)) := by
  have hexact : (secondsOf nanos).magnitude = seconds nanos := by
    refine magnitude_secondsOf_of_grid hspan (by decide) (by decide) ?_
    norm_num [binade] at hshort ⊢
    exact hshort
  rw [credit_magnitude hquota (isFinite_secondsOf (le_longestNanos hshort)), hexact, mul_comm]

/-- A credit below the burst is exact. -/
theorem credit_exact (hquota : quota.Usable) (hrate : OnGrid (-11) quota.perSecond)
    (hspan : OnGrid (-9) (seconds nanos))
    (hsmall : quota.perSecond * seconds nanos < quota.burst.toNat) :
    (secondsOf nanos * quota.rate).magnitude = quota.perSecond * seconds nanos := by
  have hburst := burst_le quota
  have hsec := hquota.seconds_le hrate nanos
  have hshort : seconds nanos < 2 ^ (44 : ℤ) := by
    norm_num at hsec ⊢
    linarith
  have hvalue : Rank.value (Rank.nearest (quota.perSecond * seconds nanos))
      = quota.perSecond * seconds nanos := by
    refine (hrate.mul hspan).value_nearest (by decide) ?_
    norm_num [binade]
    linarith
  rw [credit_of_short hquota hspan hshort, hvalue, min_eq_left]
  exact hsmall.le.trans (burst_le_two_pow quota)

/-- A credit of the burst or more stays so, however long the span: past 2^43
seconds even the slowest rate fills every bucket. -/
theorem burst_le_credit_of_grid (hquota : quota.Usable)
    (hrate : OnGrid (-11) quota.perSecond) (hspan : OnGrid (-9) (seconds nanos))
    (hlarge : quota.burst.toNat ≤ quota.perSecond * seconds nanos) :
    quota.burst.toNat ≤ (secondsOf nanos * quota.rate).magnitude := by
  have hburst := burst_le quota
  have hgrid := burst_le_two_pow quota
  rcases lt_or_ge (seconds nanos) (2 ^ (44 : ℤ)) with hshort | hlong
  · rw [credit_of_short hquota hspan hshort]
    exact le_min (burst_le_value_nearest hlarge) hgrid
  · -- the span is longer than one of 2^43 seconds, which is enough already
    have hfar : seconds (2 ^ 43 * nanosPerSecond) = 2 ^ (43 : ℤ) := by
      norm_num [seconds, nanosPerSecond]
    have hsec := hquota.seconds_le hrate (2 ^ 43 * nanosPerSecond)
    have hle : 2 ^ 43 * nanosPerSecond ≤ nanos := by
      have hcast : ((2 ^ 43 * nanosPerSecond : ℕ) : ℚ) ≤ nanos := by
        unfold seconds at hlong
        rw [le_div_iff₀ (by norm_num [nanosPerSecond])] at hlong
        refine le_trans ?_ hlong
        norm_num [nanosPerSecond]
      exact_mod_cast hcast
    have hprod := rank_credit_mono hquota hle
    refine le_trans ?_ (Rank.value_le_value.mpr hprod)
    show _ ≤ (secondsOf (2 ^ 43 * nanosPerSecond) * quota.rate).magnitude
    rw [credit_of_short hquota (hfar ▸ ⟨2 ^ 52, by norm_num⟩) (hfar ▸ by norm_num)]
    refine le_min (burst_le_value_nearest ?_) hgrid
    rw [hfar] at hsec ⊢
    norm_num at hsec ⊢
    linarith

/-- The refill of a sound bucket on the grid is that of an exact account. -/
theorem Sound.refill_exact (hquota : quota.Usable) (hb : bucket.Sound quota)
    (hrate : OnGrid (-11) quota.perSecond)
    (htokens : OnGrid (-20) bucket.tokens.magnitude)
    (hspan : OnGrid (-9) (seconds (now - bucket.creditedAt))) :
    (bucket.refill quota now).tokens.magnitude
      = ((Account.mk bucket.tokens.magnitude bucket.creditedAt).refill quota
          now).balance := by
  have hburst := burst_le quota
  have hpos := magnitude_nonneg bucket.tokens
  rw [hb.refill_magnitude hquota now]
  show _ = min (bucket.tokens.magnitude
    + quota.perSecond * seconds (now - bucket.creditedAt)) _
  generalize now - bucket.creditedAt = nanos at hspan ⊢
  have hcredit := mul_nonneg hquota.perSecond_nonneg (seconds_nonneg nanos)
  rcases lt_or_ge (quota.perSecond * seconds nanos) quota.burst.toNat
    with hsmall | hlarge
  · rw [credit_exact hquota hrate hspan hsmall]
    rcases lt_or_ge (bucket.tokens.magnitude + quota.perSecond * seconds nanos)
      quota.burst.toNat with hbelow | hfull
    · have hgrid : OnGrid (-20) (bucket.tokens.magnitude
          + quota.perSecond * seconds nanos) := htokens.add (hrate.mul hspan)
      rw [hgrid.value_nearest (by decide)]
      norm_num [binade]
      linarith
    · rw [min_eq_right hfull, min_eq_right (burst_le_value_nearest hfull)]
  · have hcapped := burst_le_credit_of_grid hquota hrate hspan hlarge
    rw [min_eq_right (burst_le_value_nearest (by linarith)),
      min_eq_right (by linarith)]

end Bucket

end Turnstile
