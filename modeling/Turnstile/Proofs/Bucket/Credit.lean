/-
The time that refills credit when their instants come out of order.

Who refills a bucket reads the clock first and gets hold of the bucket
later, so the instants that a bucket sees need not be in order. A refill
with an instant of the past credits nothing, but it moves the bucket's
instant back, and the next one credits once more what was already credited
(`creditedNanos_of_stale`).

In all, refills credit at least the climb from the first instant to the
latest one (`climb_le_creditedNanos`). They credit no more than that
exactly if the instants rise and from then on only fall
(`creditedNanos_le_climb_iff`); in particular if they never fall
(`creditedNanos_of_ordered`), as on the clock of Registry/Timed.lean.

Chain (time): Bucket.lean below; nothing above, since all runs are on one
clock.
-/
import Mathlib
import Turnstile.Bucket

namespace Turnstile.Bucket

/-- The nanoseconds that refills at the instants credit. -/
def creditedNanos (quota : Quota) : Bucket → List ℕ → ℕ
  | _, [] => 0
  | bucket, now :: rest =>
      (now - bucket.creditedAt) + creditedNanos quota (bucket.refill quota now) rest

/-- The latest of an instant and those that follow. -/
def latest (start : ℕ) (instants : List ℕ) : ℕ :=
  instants.foldl max start

/-- The instants rise from `start` on, and once they fall they never rise
again. -/
def RisesThenFalls : ℕ → List ℕ → Prop
  | _, [] => True
  | start, now :: rest =>
      (start ≤ now ∧ RisesThenFalls now rest)
        ∨ (now < start ∧ (now :: rest).IsChain (· ≥ ·))

variable {quota : Quota} {bucket : Bucket} {instants : List ℕ}

theorem latest_cons (start now : ℕ) (rest : List ℕ) :
    latest start (now :: rest) = max start (latest now rest) :=
  List.foldl_assoc

theorem le_latest (start : ℕ) (instants : List ℕ) :
    start ≤ latest start instants := by
  cases instants with
  | nil => exact Nat.le_refl _
  | cons now rest =>
      rw [latest_cons]
      exact Nat.le_max_left ..

/-- Every instant between the first and the latest is credited at least
once. -/
theorem climb_le_creditedNanos (quota : Quota) (instants : List ℕ) :
    ∀ bucket : Bucket, latest bucket.creditedAt instants - bucket.creditedAt
      ≤ bucket.creditedNanos quota instants := by
  induction instants with
  | nil =>
      intro bucket
      exact (Nat.sub_self _).le
  | cons now rest ih =>
      intro bucket
      have hrest : latest now rest - now
        ≤ (bucket.refill quota now).creditedNanos quota rest :=
          ih (bucket.refill quota now)
      rw [latest_cons, creditedNanos]
      omega

/-- Nothing is credited exactly if the instants only fall. -/
theorem creditedNanos_eq_zero_iff (quota : Quota) (instants : List ℕ) :
    ∀ bucket : Bucket, bucket.creditedNanos quota instants = 0
      ↔ (bucket.creditedAt :: instants).IsChain (· ≥ ·) := by
  induction instants with
  | nil =>
      intro bucket
      exact ⟨fun _ => .singleton _, fun _ => rfl⟩
  | cons now rest ih =>
      intro bucket
      have hrest := ih (bucket.refill quota now)
      rw [creditedNanos, Nat.add_eq_zero_iff, hrest, Nat.sub_eq_zero_iff_le,
        List.isChain_cons_cons]
      rfl

/-- No time is credited twice exactly if the instants rise and then
fall. -/
theorem creditedNanos_le_climb_iff (quota : Quota) (instants : List ℕ) :
    ∀ bucket : Bucket, bucket.creditedNanos quota instants
        ≤ latest bucket.creditedAt instants - bucket.creditedAt
      ↔ RisesThenFalls bucket.creditedAt instants := by
  induction instants with
  | nil =>
      intro bucket
      exact ⟨fun _ => trivial, fun _ => Nat.zero_le _⟩
  | cons now rest ih =>
      intro bucket
      have hrest : (bucket.refill quota now).creditedNanos quota rest
          ≤ latest now rest - now
        ↔ RisesThenFalls now rest := ih (bucket.refill quota now)
      have hzero : (bucket.refill quota now).creditedNanos quota rest = 0
        ↔ (now :: rest).IsChain (· ≥ ·) :=
          creditedNanos_eq_zero_iff quota rest (bucket.refill quota now)
      have hclimb : latest now rest - now
        ≤ (bucket.refill quota now).creditedNanos quota rest :=
          climb_le_creditedNanos quota rest (bucket.refill quota now)
      have hlate : now ≤ latest now rest :=
        le_latest now rest
      rw [latest_cons, creditedNanos, RisesThenFalls, ← hrest, ← hzero]
      omega

theorem risesThenFalls_of_ordered (instants : List ℕ) :
    ∀ start, (start :: instants).IsChain (· ≤ ·) →
      RisesThenFalls start instants := by
  induction instants with
  | nil =>
      intro start _
      trivial
  | cons now rest ih =>
      intro start hchain
      obtain ⟨hle, hrest⟩ := List.isChain_cons_cons.mp hchain
      exact .inl ⟨hle, ih now hrest⟩

/-- On a clock that never goes back, the credit is the time that passed. -/
theorem creditedNanos_of_ordered
    (hordered : (bucket.creditedAt :: instants).IsChain (· ≤ ·)) :
    bucket.creditedNanos quota instants
      = latest bucket.creditedAt instants - bucket.creditedAt := by
  have hrises := risesThenFalls_of_ordered instants _ hordered
  refine le_antisymm ?_ (climb_le_creditedNanos quota instants bucket)
  exact (creditedNanos_le_climb_iff quota instants bucket).mpr hrises

/-- A stale instant between two equal ones: ten nanoseconds pass, and
twenty are credited. -/
theorem creditedNanos_of_stale :
    creditedNanos ⟨10, 1⟩ (.full ⟨10, 1⟩ 0) [10, 0, 10] = 20
      ∧ latest 0 [10, 0, 10] = 10 := ⟨rfl, rfl⟩

end Turnstile.Bucket
