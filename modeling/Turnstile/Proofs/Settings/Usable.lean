/-
What the check of the settings is good for.

If the limiter is enabled, the settings pass exactly if their quota is
usable and there is time between the sweeps (`fault?_eq_none_iff`). All
that is proved of buckets under a usable quota so holds of every limiter
that starts.

Chain (settings): Bucket/Sound.lean below; Registry/Padding.lean and
Http/Retry.lean above.
-/
import Mathlib
import Turnstile.Proofs.Bucket.Sound
import Turnstile.Settings.Fault

namespace Turnstile

namespace Settings.RateLimit

variable {limits : RateLimit}

/-- The settings of an enabled limiter pass if its quota is usable and
sweeps are apart. -/
theorem fault?_eq_none_iff (henabled : limits.enabled = true) :
    limits.fault? = none
      ↔ limits.quota.Usable ∧ 0 < limits.evictionInterval.nanos := by
  have hburst : 0 < limits.burst ↔ limits.burst ≠ 0 := UInt32.pos_iff_ne_zero
  have hrate (hfinite : limits.rps.isFinite = true) :
      ¬limits.rps ≤ 0 ↔ 0 < limits.rps :=
    Binary64.not_le_iff (Binary64.not_isNaN_of_isFinite hfinite) rfl
  unfold fault?
  constructor
  · intro hvalid
    split_ifs at hvalid with hoff hbad hnone hstill
    · simp [henabled] at hoff
    · simp only [Bool.or_eq_true, Bool.not_eq_true', decide_eq_true_eq, not_or,
        Bool.not_eq_false] at hbad
      refine ⟨⟨hbad.1, (hrate hbad.1).mp hbad.2, hburst.mpr hnone⟩, ?_⟩
      exact Nat.pos_of_ne_zero hstill
  · rintro ⟨hquota, hapart⟩
    have hfinite : limits.rps.isFinite = true := hquota.rate_finite
    have hpositive := (hrate hfinite).mpr hquota.rate_pos
    have hnone := hburst.mp hquota.burst_pos
    simp [henabled, hfinite, hpositive, hnone, hapart.ne']

end Settings.RateLimit

end Turnstile
