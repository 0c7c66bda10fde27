/-
Sound buckets: the count is never negative and never above the capacity.

A quota is usable (`Quota.Usable`) if its rate is finite and positive and
its burst is not zero, which is what the settings promise of a limiter
that is enabled. Under such a quota every operation on a bucket keeps it
sound (`sound_full`, `Sound.refill`, `Sound.draw`). A full bucket stays full
under every refill, and of two refills at one instant the second changes
nothing, both to the bit (`refill_of_full`, `Sound.refill_refill`). A refill
keeps the order of counts and of instants (`refill_mono`).

Chain (bucket): Binary64/Nonneg.lean below; Bucket/Accuracy.lean,
Bucket/Interval.lean and the registry's proofs above.
-/
import Mathlib
import Turnstile.Bucket
import Turnstile.Proofs.Duration.Seconds

namespace Turnstile

open Binary64

-- ======================================================= usable quotas

/-- The rate is a positive number and there is something to spend. -/
structure Quota.Usable (quota : Quota) : Prop where
  rate_finite : quota.rate.isFinite = true
  rate_pos : 0 < quota.rate
  burst_pos : 0 < quota.burst

namespace Quota

variable {quota : Quota}

theorem burst_lt (quota : Quota) : quota.burst.toNat < 2 * binade :=
  quota.burst.toNat_lt.trans (by decide)

theorem capacity_nonneg (quota : Quota) : quota.capacity.Nonneg :=
  nonneg_ofNat _

theorem capacity_magnitude (quota : Quota) :
    quota.capacity.magnitude = quota.burst.toNat :=
  magnitude_ofNat quota.burst_lt

theorem capacity_isFinite (quota : Quota) :
    quota.capacity.isFinite = true :=
  isFinite_ofNat quota.burst_lt

theorem Usable.one_le_burst (hquota : quota.Usable) :
    (1 : ℚ) ≤ quota.burst.toNat := by
  exact_mod_cast UInt32.lt_iff_toNat_lt.mp hquota.burst_pos

theorem Usable.capacity_rank_pos (hquota : quota.Usable) :
    0 < quota.capacity.rank :=
  rank_ofNat_pos (UInt32.lt_iff_toNat_lt.mp hquota.burst_pos) quota.burst_lt

theorem Usable.rate_nonneg (hquota : quota.Usable) : quota.rate.Nonneg :=
  nonneg_of_pos hquota.rate_pos

theorem Usable.rate_rank_pos (hquota : quota.Usable) :
    0 < quota.rate.rank :=
  rank_pos_of_pos hquota.rate_pos

end Quota

-- ======================================================= sound buckets

namespace Bucket

/-- The count is neither negative nor above the capacity. -/
structure Sound (quota : Quota) (bucket : Bucket) : Prop where
  nonneg : bucket.tokens.Nonneg
  rank_le : bucket.tokens.rank ≤ quota.capacity.rank

variable {quota : Quota} {bucket richer : Bucket} {now early late : ℕ}

/-- The credit of a span of time is not negative, even if it is
infinite. -/
theorem nonneg_credit (hquota : quota.Usable) (nanos : ℕ) :
    (secondsOf nanos * quota.rate).Nonneg :=
  (nonneg_secondsOf nanos).mul_of_pos hquota.rate_nonneg hquota.rate_finite
    hquota.rate_rank_pos

theorem Sound.isFinite (hb : bucket.Sound quota) :
    bucket.tokens.isFinite = true :=
  isFinite_of_rank hb.nonneg
    (hb.rank_le.trans_lt (rank_lt_of_isFinite quota.capacity_isFinite))

theorem Sound.magnitude_le (hb : bucket.Sound quota) :
    bucket.tokens.magnitude ≤ quota.burst.toNat := by
  rw [← quota.capacity_magnitude]
  exact Rank.value_le_value.mpr hb.rank_le

theorem sound_full (quota : Quota) (now : ℕ) : (full quota now).Sound quota :=
  ⟨quota.capacity_nonneg, Nat.le_refl _⟩

/-- A longer span has no less credit. -/
theorem rank_credit_mono (hquota : quota.Usable) {short long : ℕ} (hle : short ≤ long) :
    (secondsOf short * quota.rate).rank ≤ (secondsOf long * quota.rate).rank :=
  (nonneg_secondsOf short).rank_mul_le_rank_mul (nonneg_secondsOf long) hquota.rate_nonneg
    hquota.rate_finite hquota.rate_rank_pos (rank_secondsOf_mono hle)

/-- The count after a refill: one rounding of count and credit, capped. -/
theorem refill_spec (hquota : quota.Usable) (htokens : bucket.tokens.Nonneg) (now : ℕ) :
    (bucket.refill quota now).tokens.Nonneg
      ∧ (bucket.refill quota now).tokens.rank
        = min (Rank.nearest (bucket.tokens.magnitude
            + (secondsOf (now - bucket.creditedAt) * quota.rate).magnitude))
          quota.capacity.rank := by
  have hcredit := nonneg_credit hquota (now - bucket.creditedAt)
  obtain ⟨hsum, hrank⟩ := htokens.add hcredit
  obtain ⟨hnonneg, hmin⟩ := hsum.lesser quota.capacity_nonneg
  refine ⟨hnonneg, hmin.trans ?_⟩
  rw [hrank, Nat.min_assoc, Nat.min_eq_right (rank_le_rankBound quota.capacity)]

/-- More tokens, refilled later, are no fewer. Rounding the credit, the sum and the cap
all keep the order. -/
theorem refill_mono (hquota : quota.Usable) (htokens : bucket.tokens.Nonneg)
    (hless : bucket.tokens ≤ richer.tokens) (hsince : richer.creditedAt ≤ bucket.creditedAt)
    (hle : early ≤ late) :
    (bucket.refill quota early).tokens ≤ (richer.refill quota late).tokens := by
  have hricher : richer.tokens.Nonneg := htokens.of_le hless
  obtain ⟨hnonneg, hrank⟩ := refill_spec hquota htokens early
  obtain ⟨hnonneg', hrank'⟩ := refill_spec hquota hricher late
  have hcredit := rank_credit_mono hquota
    (show early - bucket.creditedAt ≤ late - richer.creditedAt by omega)
  have hcount := (htokens.le_iff hricher).mp hless
  rw [hnonneg.le_iff hnonneg', hrank, hrank']
  refine min_le_min (Rank.nearest_mono ?_) le_rfl
  exact add_le_add (Rank.value_le_value.mpr hcount) (Rank.value_le_value.mpr hcredit)

theorem Sound.refill_spec (hquota : quota.Usable) (hb : bucket.Sound quota)
    (now : ℕ) :
    (bucket.refill quota now).tokens.Nonneg
      ∧ (bucket.refill quota now).tokens.rank
        = min (Rank.nearest (bucket.tokens.magnitude
            + (secondsOf (now - bucket.creditedAt) * quota.rate).magnitude))
          quota.capacity.rank :=
  Bucket.refill_spec hquota hb.nonneg now

theorem Sound.refill_magnitude (hquota : quota.Usable) (hb : bucket.Sound quota)
    (now : ℕ) :
    (bucket.refill quota now).tokens.magnitude
      = min (Rank.value (Rank.nearest (bucket.tokens.magnitude
          + (secondsOf (now - bucket.creditedAt) * quota.rate).magnitude)))
        quota.burst.toNat := by
  rw [← quota.capacity_magnitude]
  unfold magnitude
  rw [(hb.refill_spec hquota now).2, Rank.value_min]
  rfl

theorem Sound.refill (hquota : quota.Usable) (hb : bucket.Sound quota)
    (now : ℕ) : (bucket.refill quota now).Sound quota := by
  obtain ⟨hnonneg, hrank⟩ := hb.refill_spec hquota now
  refine ⟨hnonneg, ?_⟩
  rw [hrank]
  exact Nat.min_le_right ..

theorem Sound.rank_le_refill (hquota : quota.Usable) (hb : bucket.Sound quota)
    (now : ℕ) : bucket.tokens.rank ≤ (bucket.refill quota now).tokens.rank := by
  rw [(hb.refill_spec hquota now).2]
  refine le_min (Rank.le_nearest ?_) hb.rank_le
  exact le_add_of_nonneg_right (magnitude_nonneg _)

/-- A refill that comes no later than the last one changes no count. -/
theorem Sound.refill_magnitude_of_le (hquota : quota.Usable)
    (hb : bucket.Sound quota) (hnow : now ≤ bucket.creditedAt) :
    (bucket.refill quota now).tokens.magnitude = bucket.tokens.magnitude := by
  have hzero : secondsOf 0 = zero false := by decide +kernel
  have hnone : (zero false).magnitude = 0 := Rank.value_zero
  have hcredit : (secondsOf 0 * quota.rate).magnitude = 0 := by
    obtain ⟨-, hrank⟩ := nonneg_zero.mul hquota.rate_nonneg rfl hquota.rate_finite
    rw [hnone, zero_mul, Rank.nearest_of_nonpos le_rfl, Nat.zero_min] at hrank
    rw [hzero, magnitude, hrank, Rank.value_zero]
  rw [hb.refill_magnitude hquota now, Nat.sub_eq_zero_of_le hnow, hcredit, add_zero,
    magnitude, Rank.nearest_value]
  exact min_eq_left hb.magnitude_le

theorem Sound.tokens_eq (hquota : quota.Usable) (hb : bucket.Sound quota)
    (hfull : quota.capacity.rank ≤ bucket.tokens.rank) :
    bucket.tokens = quota.capacity :=
  hb.nonneg.eq_of_rank_eq quota.capacity_nonneg (hb.rank_le.antisymm hfull)
    hquota.capacity_rank_pos

theorem Sound.isPartial_eq_false_iff (hquota : quota.Usable)
    (hb : bucket.Sound quota) :
    bucket.isPartial quota = false ↔ bucket.tokens = quota.capacity := by
  have hlt := hb.nonneg.lt_iff quota.capacity_nonneg
  unfold isPartial
  rw [decide_eq_false_iff_not, hlt, not_lt]
  constructor
  · exact hb.tokens_eq hquota
  · intro hfull
    rw [hfull]

theorem Sound.magnitude_lt_of_isPartial (hb : bucket.Sound quota)
    (hpartial : bucket.isPartial quota = true) :
    bucket.tokens.magnitude < quota.burst.toNat := by
  have hless := (hb.nonneg.lt_iff quota.capacity_nonneg).mp (of_decide_eq_true hpartial)
  rw [← quota.capacity_magnitude]
  exact Rank.value_strictMono hless

/-- A full bucket stays full under every refill. -/
theorem refill_of_full (hquota : quota.Usable)
    (hfull : bucket.tokens = quota.capacity) (now : ℕ) :
    bucket.refill quota now = full quota now := by
  have hb : bucket.Sound quota := by
    refine ⟨?_, ?_⟩ <;> rw [hfull]
    exact quota.capacity_nonneg
  have hge := hb.rank_le_refill hquota now
  rw [hfull] at hge
  have htokens := (hb.refill hquota now).tokens_eq hquota hge
  show Bucket.mk (bucket.refill quota now).tokens now = _
  rw [htokens]
  rfl

/-- No refill leaves a negative zero. -/
theorem Sound.isNegative_refill (hquota : quota.Usable) (hb : bucket.Sound quota)
    (now : ℕ) : (bucket.refill quota now).tokens.isNegative = false := by
  have hcredit := nonneg_credit hquota (now - bucket.creditedAt)
  have hplus : (secondsOf (now - bucket.creditedAt) * quota.rate).isNegative = false :=
    (nonneg_secondsOf _).isNegative_mul hquota.rate_nonneg hquota.rate_finite
      (isNegative_secondsOf _) (isNegative_of_pos hquota.rate_pos)
  have hcapacity : quota.capacity.isNegative = false :=
    isNegative_ofRat (Nat.cast_nonneg _)
  exact isNegative_lesser (hb.nonneg.isNegative_add hcredit (Or.inr hplus)) hcapacity

/-- A second refill at one instant changes nothing, to the bit. -/
theorem Sound.refill_refill (hquota : quota.Usable) (hb : bucket.Sound quota)
    (now : ℕ) :
    (bucket.refill quota now).refill quota now = bucket.refill quota now := by
  have honce := hb.refill hquota now
  have htwice := honce.refill hquota now
  have hmagnitude := honce.refill_magnitude_of_le hquota (Nat.le_refl now)
  have htokens := htwice.nonneg.eq_of_rank_eq_of_plus honce.nonneg
    (honce.isNegative_refill hquota now) (hb.isNegative_refill hquota now)
    (Rank.value_strictMono.injective hmagnitude)
  show Bucket.mk ((bucket.refill quota now).refill quota now).tokens now = _
  rw [htokens]
  rfl

-- =============================================================== draws

theorem one_spec : (1 : Binary64).Nonneg ∧ (1 : Binary64).magnitude = 1 := by
  refine ⟨nonneg_ofNat 1, ?_⟩
  have hmag := magnitude_ofNat (n := 1) (by decide)
  rwa [Nat.cast_one] at hmag

theorem Sound.one_le_iff (hb : bucket.Sound quota) :
    1 ≤ bucket.tokens ↔ 1 ≤ bucket.tokens.magnitude := by
  rw [one_spec.1.le_iff_magnitude hb.nonneg, one_spec.2]

/-- What is left after a token is taken, exactly one less. -/
theorem Sound.take (hb : bucket.Sound quota) (hone : 1 ≤ bucket.tokens) :
    ({ bucket with tokens := bucket.tokens - 1 } : Bucket).Sound quota
      ∧ (bucket.tokens - 1).magnitude = bucket.tokens.magnitude - 1 := by
  have hmag := hb.one_le_iff.mp hone
  have hburst : (quota.burst.toNat : ℚ) < 2 * binade := by
    exact_mod_cast quota.burst_lt
  have hexact := Rank.value_nearest_sub_one (k := bucket.tokens.rank) hmag
    (hb.magnitude_le.trans_lt hburst)
  obtain ⟨hnonneg, hrank⟩ := hb.nonneg.sub one_spec.1 hb.isFinite hone
  rw [one_spec.2] at hrank
  have hle : Rank.nearest (bucket.tokens.magnitude - 1) ≤ bucket.tokens.rank :=
    Rank.nearest_le (sub_le_self _ one_pos.le)
  have hbound := rank_le_rankBound bucket.tokens
  rw [Nat.min_eq_left (hle.trans hbound)] at hrank
  refine ⟨⟨hnonneg, ?_⟩, ?_⟩
  · show (bucket.tokens - 1).rank ≤ _
    rw [hrank]
    exact hle.trans hb.rank_le
  · show Rank.value (bucket.tokens - 1).rank = _
    rw [hrank]
    exact hexact

/-- What a draw does to the refilled bucket: it takes a token if there is a
whole one, and nothing otherwise. -/
theorem draw_cases (quota : Quota) (now : ℕ) (bucket : Bucket) :
    (1 ≤ (bucket.refill quota now).tokens
        ∧ bucket.draw quota now
          = (true, { bucket.refill quota now with
              tokens := (bucket.refill quota now).tokens - 1 }))
      ∨ (¬1 ≤ (bucket.refill quota now).tokens
        ∧ bucket.draw quota now = (false, bucket.refill quota now)) := by
  by_cases hone : 1 ≤ (bucket.refill quota now).tokens
  · left
    refine ⟨hone, ?_⟩
    simp only [draw, take?, if_pos hone]
  · right
    refine ⟨hone, ?_⟩
    simp only [draw, take?, if_neg hone]

theorem draw_creditedAt (quota : Quota) (now : ℕ) (bucket : Bucket) :
    (bucket.draw quota now).2.creditedAt = now := by
  rcases draw_cases quota now bucket with ⟨-, h⟩ | ⟨-, h⟩ <;> rw [h] <;> rfl

theorem Sound.draw (hquota : quota.Usable) (hb : bucket.Sound quota)
    (now : ℕ) : (bucket.draw quota now).2.Sound quota := by
  have hrefill := hb.refill hquota now
  rcases draw_cases quota now bucket with ⟨hone, h⟩ | ⟨-, h⟩
  · rw [h]
    exact (hrefill.take hone).1
  · rw [h]
    exact hrefill

/-- A new bucket has a token. -/
theorem one_le_refill_full (hquota : quota.Usable) (now : ℕ) :
    1 ≤ ((full quota now).refill quota now).tokens := by
  rw [refill_of_full hquota rfl now, (sound_full quota now).one_le_iff]
  exact hquota.one_le_burst.trans_eq quota.capacity_magnitude.symm

/-- A full bucket and a new one answer alike. -/
theorem draw_of_full (hquota : quota.Usable)
    (hfull : bucket.tokens = quota.capacity) (now : ℕ) :
    bucket.draw quota now = (full quota now).draw quota now := by
  have hnew : (full quota now).refill quota now = full quota now :=
    refill_of_full hquota rfl now
  unfold draw
  rw [refill_of_full hquota hfull, hnew]

end Bucket

end Turnstile
