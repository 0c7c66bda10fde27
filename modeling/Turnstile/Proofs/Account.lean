/-
Exact accounts: what a token bucket would hold if nothing were rounded.

An account accrues the exact rate over exact seconds, up to the burst, and
pays one token for each admission. In exact numbers a refill on the way
changes nothing (`refill_refill`), accounts that differ stay as close as
they were (`abs_refill_sub_refill_le`), and nothing is gained but by the
passing of time (`refill_balance_le_add`).

Chain (account): the second side of the statements about token counts;
Bucket/Accuracy.lean and Bucket/Exact.lean compare one refill,
Registry/Accuracy.lean and Registry/Textbook.lean a run.
-/
import Mathlib
import Turnstile.Registry
import Turnstile.Proofs.Bucket.Sound

namespace Turnstile

/-- Tokens per second, exactly; zero for a rate that is no number. -/
def Quota.perSecond (quota : Quota) : ℚ :=
  quota.rate.toRat?.getD 0

theorem Quota.Usable.perSecond_eq {quota : Quota} (hquota : quota.Usable) :
    quota.perSecond = quota.rate.magnitude := by
  unfold Quota.perSecond
  rw [hquota.rate_nonneg.toRat?_eq hquota.rate_finite]
  rfl

theorem Quota.Usable.perSecond_nonneg {quota : Quota} (hquota : quota.Usable) :
    0 ≤ quota.perSecond :=
  hquota.perSecond_eq ▸ Binary64.magnitude_nonneg _

theorem Quota.Usable.perSecond_pos {quota : Quota} (hquota : quota.Usable) :
    0 < quota.perSecond := by
  rw [hquota.perSecond_eq]
  exact Binary64.rank_pos_iff.mp hquota.rate_rank_pos

/-- An exact balance, and the instant up to which it is credited. -/
structure Account where
  balance : ℚ
  creditedAt : ℕ
deriving DecidableEq

namespace Account

def full (quota : Quota) (now : ℕ) : Account :=
  ⟨quota.burst.toNat, now⟩

/-- Credits the time up to `now`, no further than the burst. -/
def refill (quota : Quota) (now : ℕ) (account : Account) : Account :=
  ⟨min (account.balance + quota.perSecond * seconds (now - account.creditedAt))
    quota.burst.toNat, now⟩

/-- Pays for an admission; a denial is free. -/
def settle (account : Account) : Admission → Account
  | .allowed => { account with balance := account.balance - 1 }
  | .denied _ => account

variable {quota : Quota} {account other : Account} {now later : ℕ}

theorem refill_full (hquota : quota.Usable) (opened now : ℕ) :
    (full quota opened).refill quota now = full quota now := by
  have hcredit := mul_nonneg hquota.perSecond_nonneg
    (seconds_nonneg (now - opened))
  unfold refill full
  rw [min_eq_right (le_add_of_nonneg_right hcredit)]

theorem refill_balance_le_burst (quota : Quota) (now : ℕ) (account : Account) :
    (account.refill quota now).balance ≤ quota.burst.toNat :=
  min_le_right ..

theorem refill_balance_le_add (quota : Quota) (now : ℕ) (account : Account) :
    (account.refill quota now).balance
      ≤ account.balance + quota.perSecond * seconds (now - account.creditedAt) :=
  min_le_left ..

theorem settle_creditedAt (account : Account) (answer : Admission) :
    (account.settle answer).creditedAt = account.creditedAt := by
  cases answer <;> rfl

theorem settle_balance_add (account : Account) (answer : Admission) :
    (account.settle answer).balance + (if answer.isAllowed then 1 else 0)
      = account.balance := by
  cases answer with
  | allowed => exact sub_add_cancel _ 1
  | denied wait => exact add_zero _

theorem settle_balance_le (account : Account) (answer : Admission) :
    (account.settle answer).balance ≤ account.balance := by
  cases answer with
  | allowed => exact sub_le_self _ one_pos.le
  | denied wait => exact le_rfl

/-- A balance within the burst is not lost by a refill. -/
theorem le_refill_balance (hquota : quota.Usable)
    (hle : account.balance ≤ quota.burst.toNat) (now : ℕ) :
    account.balance ≤ (account.refill quota now).balance := by
  refine le_min ?_ hle
  have hcredit := mul_nonneg hquota.perSecond_nonneg
    (seconds_nonneg (now - account.creditedAt))
  linarith

/-- A refill on the way changes nothing: either it left the account below
the burst, and the credits add up, or it filled it, and so does the later
one. -/
theorem refill_refill (hquota : quota.Usable)
    (hpast : account.creditedAt ≤ now) (hlater : now ≤ later) :
    (account.refill quota now).refill quota later
      = account.refill quota later := by
  have hspan : seconds (later - account.creditedAt)
      = seconds (now - account.creditedAt) + seconds (later - now) := by
    rw [← seconds_add]
    congr 1
    omega
  have hcredit := mul_nonneg hquota.perSecond_nonneg (seconds_nonneg (later - now))
  unfold refill
  rw [hspan, mul_add, ← add_assoc, min_add, min_assoc,
    min_eq_right (le_add_of_nonneg_right hcredit)]

theorem refill_balance_le_refill_add (hquota : quota.Usable)
    (hpast : account.creditedAt ≤ now) (hlater : now ≤ later) :
    (account.refill quota later).balance
      ≤ (account.refill quota now).balance
        + quota.perSecond * seconds (later - now) := by
  rw [← refill_refill hquota hpast hlater]
  exact refill_balance_le_add ..

/-- Refills bring accounts of the same age no further apart. -/
theorem abs_refill_sub_refill_le (quota : Quota) (now : ℕ)
    (hage : account.creditedAt = other.creditedAt) :
    |(account.refill quota now).balance - (other.refill quota now).balance|
      ≤ |account.balance - other.balance| := by
  unfold refill
  rw [hage]
  refine (abs_min_sub_min_le_max ..).trans ?_
  rw [sub_self, abs_zero, add_sub_add_right_eq_sub]
  exact max_le le_rfl (abs_nonneg _)

end Account

end Turnstile
