/-
One refill in binary64 against one refill in exact numbers.

The credit of a span is the product of a rounded number of seconds and the
rate, rounded again; the count is the sum with the credit, rounded once
more and capped. If the exact credit reaches twice the burst, both counts
are the burst itself. Otherwise no quantity on the way exceeds three
bursts, and the roundings together stay within sixteen units of 2^-53 of
the burst (`Sound.sum_error`, `Sound.refill_error`). So a bucket that is
below its capacity after a refill has lost no more than that of its credit
(`Sound.credit_le_of_isPartial`).

Chain (account): Account.lean below; Registry/Accuracy.lean above.
-/
import Mathlib
import Turnstile.Proofs.Account
import Turnstile.Proofs.Bucket.Sound

namespace Turnstile

open Binary64

/-- What one refill may be off by. -/
def Quota.slack (quota : Quota) : ℚ :=
  quota.burst.toNat * 2 ^ (-49 : ℤ)

theorem Quota.slack_nonneg (quota : Quota) : 0 ≤ quota.slack := by
  unfold slack
  positivity

namespace Bucket

variable {quota : Quota} {bucket : Bucket} {now nanos : ℕ}

/-- An error in a form that is linear in the rounded number. -/
theorem nearest_error_linear {q : ℚ} (hq : 0 ≤ q) :
    |Rank.value (Rank.nearest q) - q| ≤ (q + 1) * 2 ^ (-53 : ℤ) := by
  have htiny : (2 : ℚ) ^ (-1075 : ℤ) ≤ 2 ^ (-53 : ℤ) :=
    zpow_le_zpow_right₀ one_le_two (by decide)
  have hshare : 0 ≤ q * (2 : ℚ) ^ (-53 : ℤ) := by positivity
  have hunit : (0 : ℚ) < 2 ^ (-53 : ℤ) := by positivity
  rw [add_mul, one_mul]
  refine (Rank.nearest_error_le hq).trans (max_le ?_ ?_)
  · exact le_add_of_nonneg_right hunit.le
  · exact htiny.trans (le_add_of_nonneg_left hshare)

/-- The credit of a span is the rounded product, or the end of the
grid. -/
theorem credit_magnitude (hquota : quota.Usable) (hfin : (secondsOf nanos).isFinite = true) :
    (secondsOf nanos * quota.rate).magnitude
      = min (Rank.value (Rank.nearest
          ((secondsOf nanos).magnitude * quota.perSecond))) (2 ^ (1024 : ℤ)) := by
  obtain ⟨-, hrank⟩ := (nonneg_secondsOf nanos).mul hquota.rate_nonneg
    hfin hquota.rate_finite
  show Rank.value _ = _
  rw [hrank, Rank.value_min, Rank.value_rankBound, hquota.perSecond_eq]

/-- The product before its own rounding is off by what the seconds are. -/
theorem product_error (hquota : quota.Usable) (hfin : (secondsOf nanos).isFinite = true) :
    |(secondsOf nanos).magnitude * quota.perSecond
        - quota.perSecond * seconds nanos|
      ≤ quota.perSecond * seconds nanos * (3 * 2 ^ (-53 : ℤ)) := by
  have hrate := hquota.perSecond_nonneg
  have hsec := mul_le_mul_of_nonneg_left (secondsOf_error hfin) hrate
  rw [mul_comm (secondsOf nanos).magnitude, ← mul_sub, abs_mul, abs_of_nonneg hrate,
    mul_assoc]
  exact hsec

theorem burst_le (quota : Quota) : (quota.burst.toNat : ℚ) ≤ 4294967296 := by
  exact_mod_cast quota.burst.toNat_lt.le

theorem burst_le_two_pow (quota : Quota) :
    (quota.burst.toNat : ℚ) ≤ 2 ^ (1024 : ℤ) := by
  refine (burst_le quota).trans ?_
  refine le_trans (b := (2 : ℚ) ^ (32 : ℤ)) (by norm_num) ?_
  exact zpow_le_zpow_right₀ one_le_two (by decide)

/-- Rounding takes nothing away from a burst. -/
theorem burst_le_value_nearest {q : ℚ} (hq : (quota.burst.toNat : ℚ) ≤ q) :
    (quota.burst.toNat : ℚ) ≤ Rank.value (Rank.nearest q) := by
  rw [← quota.capacity_magnitude] at hq ⊢
  exact Rank.value_le_value.mpr (Rank.le_nearest hq)

/-- A credit of two bursts or more is at least one burst after rounding. -/
theorem burst_le_credit (hquota : quota.Usable) (hfin : (secondsOf nanos).isFinite = true)
    (hlarge : 2 * quota.burst.toNat ≤ quota.perSecond * seconds nanos) :
    quota.burst.toNat ≤ (secondsOf nanos * quota.rate).magnitude := by
  have hone := hquota.one_le_burst
  have hproduct := product_error hquota hfin
  rw [credit_magnitude hquota hfin]
  refine le_min (burst_le_value_nearest ?_) (burst_le_two_pow quota)
  obtain ⟨hproduct, -⟩ := abs_le.mp hproduct
  norm_num at hproduct
  linarith

/-- A smaller credit is off by at most ten units of 2^-53 of the
burst. -/
theorem credit_error (hquota : quota.Usable) (hfin : (secondsOf nanos).isFinite = true)
    (hsmall : quota.perSecond * seconds nanos < 2 * quota.burst.toNat) :
    |(secondsOf nanos * quota.rate).magnitude - quota.perSecond * seconds nanos|
      ≤ quota.burst.toNat * (10 * 2 ^ (-53 : ℤ)) := by
  have hone := hquota.one_le_burst
  have hburst := burst_le quota
  have hproduct := product_error hquota hfin
  have hpos : 0 ≤ (secondsOf nanos).magnitude * quota.perSecond :=
    mul_nonneg (magnitude_nonneg _) hquota.perSecond_nonneg
  have hround := nearest_error_linear hpos
  obtain ⟨hproduct, hproduct'⟩ := abs_le.mp hproduct
  obtain ⟨hround, hround'⟩ := abs_le.mp hround
  rw [credit_magnitude hquota hfin, abs_le]
  have hgrid : Rank.value (Rank.nearest
      ((secondsOf nanos).magnitude * quota.perSecond)) ≤ 2 ^ (1024 : ℤ) := by
    refine le_trans (b := (2 : ℚ) ^ (40 : ℤ)) ?_
      (zpow_le_zpow_right₀ one_le_two (by decide))
    norm_num at hproduct' hround' ⊢
    linarith
  rw [min_eq_left hgrid]
  norm_num at hproduct hproduct' hround hround' ⊢
  constructor <;> linarith

/-- The rounded sum of a count and a smaller credit, before the cap. -/
theorem Sound.sum_error (hquota : quota.Usable) (hb : bucket.Sound quota)
    (hfin : (secondsOf nanos).isFinite = true)
    (hsmall : quota.perSecond * seconds nanos < 2 * quota.burst.toNat) :
    |Rank.value (Rank.nearest (bucket.tokens.magnitude
          + (secondsOf nanos * quota.rate).magnitude))
        - (bucket.tokens.magnitude + quota.perSecond * seconds nanos)|
      ≤ quota.slack := by
  have hone := hquota.one_le_burst
  have hcredit := credit_error hquota hfin hsmall
  have hround := nearest_error_linear (add_nonneg (magnitude_nonneg bucket.tokens)
    (magnitude_nonneg (secondsOf nanos * quota.rate)))
  have hburst := hb.magnitude_le
  obtain ⟨hcredit, hcredit'⟩ := abs_le.mp hcredit
  obtain ⟨hround, hround'⟩ := abs_le.mp hround
  unfold Quota.slack
  rw [abs_le]
  norm_num at hcredit hcredit' hround hround' ⊢
  constructor <;> linarith

/-- One refill in binary64 is within the slack of one in exact numbers. -/
theorem Sound.refill_error (hquota : quota.Usable) (hb : bucket.Sound quota)
    (hfin : (secondsOf (now - bucket.creditedAt)).isFinite = true) :
    |(bucket.refill quota now).tokens.magnitude
        - ((Account.mk bucket.tokens.magnitude bucket.creditedAt).refill quota
            now).balance|
      ≤ quota.slack := by
  have htokens := magnitude_nonneg bucket.tokens
  show |_ - min (bucket.tokens.magnitude
    + quota.perSecond * seconds (now - bucket.creditedAt)) _| ≤ _
  rw [hb.refill_magnitude hquota now]
  generalize now - bucket.creditedAt = nanos at hfin ⊢
  rcases le_or_gt (2 * (quota.burst.toNat : ℚ)) (quota.perSecond * seconds nanos)
    with hlarge | hsmall
  · -- both counts are the burst
    have hone := hquota.one_le_burst
    have hcredit := burst_le_credit hquota hfin hlarge
    rw [min_eq_right (burst_le_value_nearest (by linarith)),
      min_eq_right (by linarith), sub_self, abs_zero]
    exact quota.slack_nonneg
  · -- neither exceeds three bursts
    refine (abs_min_sub_min_le_max ..).trans ?_
    rw [sub_self, abs_zero]
    exact max_le (hb.sum_error hquota hfin hsmall) quota.slack_nonneg

/-- A credit that is less than the burst comes of a span whose seconds are
finite. -/
theorem isFinite_of_credit_lt (hquota : quota.Usable)
    (hless : (secondsOf nanos * quota.rate).magnitude < quota.burst.toNat) :
    (secondsOf nanos).isFinite = true := by
  rcases (nonneg_secondsOf nanos).eq_or with hinf | ⟨s, k, hfinite, -⟩
  · have hrank := rank_infinity_mul hquota.rate_nonneg hquota.rate_finite
      hquota.rate_rank_pos
    rw [hinf, magnitude, hrank, Rank.value_rankBound] at hless
    exact absurd (burst_le_two_pow quota) (not_le.mpr hless)
  · rw [hfinite]
    rfl

/-- A refill that leaves a bucket below its capacity has credited the whole
span, however long, but for the slack. -/
theorem Sound.credit_le_of_isPartial (hquota : quota.Usable)
    (hb : bucket.Sound quota)
    (hpartial : (bucket.refill quota now).isPartial quota = true) :
    bucket.tokens.magnitude + quota.perSecond * seconds (now - bucket.creditedAt)
      ≤ (bucket.refill quota now).tokens.magnitude + quota.slack := by
  have hbelow := (hb.refill hquota now).magnitude_lt_of_isPartial hpartial
  have htokens := magnitude_nonneg bucket.tokens
  rw [hb.refill_magnitude hquota now] at hbelow ⊢
  generalize now - bucket.creditedAt = nanos at hbelow ⊢
  -- the cap does not matter, and the credit is less than the burst
  have hsum := (min_lt_iff.mp hbelow).resolve_right (lt_irrefl _)
  have hcredit : (secondsOf nanos * quota.rate).magnitude < quota.burst.toNat := by
    by_contra hlarge
    exact absurd (burst_le_value_nearest (by linarith)) (not_le.mpr hsum)
  have hfin := isFinite_of_credit_lt hquota hcredit
  have hsmall : quota.perSecond * seconds nanos < 2 * quota.burst.toNat := by
    by_contra hlarge
    exact absurd (burst_le_credit hquota hfin (not_lt.mp hlarge))
      (not_le.mpr hcredit)
  have herror := (abs_le.mp (hb.sum_error hquota hfin hsmall)).1
  rw [min_eq_left hsum.le]
  linarith

end Bucket

end Turnstile
