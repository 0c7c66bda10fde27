/-
How many sweeps one jump of the clock brings on.

All of them are made at the instant at which the jump ends, one after the
other. A deadline that is missed by more than the tolerance is made up for
by a single sweep, because the next deadline is then a period away
(`length_settleFrom_of_late`). But a deadline that is missed by less keeps
its rhythm: every further deadline that the jump has passed is made up for
as well (`length_settleFrom_of_close`), so a period within the tolerance
leads to several sweeps in a row, six at the most.

Chain (limiter): Passage.lean below.
-/
import Mathlib
import Turnstile.Settings.Fault
import Turnstile.Proofs.Limiter.Passage

namespace Turnstile.Limiter

variable {limiter : Limiter} {deadline : ℕ}

-- ==================================================== at one instant

theorem settleFrom_of_not_due
    (hearly : ¬Sweeper.tickAfter deadline ≤ Sweeper.tickBefore limiter.now) :
    limiter.settleFrom deadline
      = ({ limiter with sweeper := .waiting deadline }, []) := by
  unfold settleFrom
  rw [if_neg hearly]

theorem not_due_of_lt (hfuture : limiter.now < deadline) :
    ¬Sweeper.tickAfter deadline ≤ Sweeper.tickBefore limiter.now := by
  intro hdue
  have hpast := Sweeper.le_of_tickAfter_le hdue
  omega

/-- Much later than its deadline, a sweeper sweeps once and waits for a
whole period. -/
theorem length_settleFrom_of_late
    (hlate : Sweeper.tolerance < limiter.now - deadline) :
    (limiter.settleFrom deadline).2.length ≤ 1 := by
  have hperiod : 0 < limiter.period := Sweeper.period_pos _
  by_cases hdue : Sweeper.tickAfter deadline ≤ Sweeper.tickBefore limiter.now
  · have hnext : Sweeper.nextDeadline limiter.now limiter.period deadline
        = limiter.now + limiter.period := if_pos hlate
    unfold settleFrom
    rw [if_pos hdue, hnext, settleFrom_of_not_due]
    · simp
    · apply not_due_of_lt
      show limiter.now < limiter.now + limiter.period
      omega
  · rw [settleFrom_of_not_due hdue]
    simp

/-- Not much later than its deadline, a sweeper sweeps once for each period
that has begun since. -/
theorem length_settleFrom_of_close (limiter : Limiter) (deadline : ℕ)
    (hclose : limiter.now - deadline ≤ Sweeper.tolerance) :
    (limiter.settleFrom deadline).2.length
      ≤ (limiter.now + limiter.period - deadline) / limiter.period := by
  fun_induction settleFrom limiter deadline with
  | case1 limiter deadline hdue rest ih =>
      have hperiod : 0 < limiter.period := Sweeper.period_pos _
      have hpast := Sweeper.le_of_tickAfter_le hdue
      have hnext : Sweeper.nextDeadline limiter.now limiter.period deadline
          = deadline + limiter.period := if_neg (by omega)
      have hrest : rest.2.length ≤ (limiter.now + limiter.period
          - (deadline + limiter.period)) / limiter.period := by
        rw [← hnext]
        apply ih
        rw [hnext]
        show limiter.now - _ ≤ _
        omega
      have hstep : limiter.now + limiter.period - deadline
          = (limiter.now + limiter.period - (deadline + limiter.period))
            + limiter.period := by omega
      rw [List.length_cons, hstep, Nat.add_div_right _ hperiod]
      exact Nat.succ_le_succ hrest
  | case2 limiter deadline hdue => simp

theorem length_settleFrom_le (limiter : Limiter) (deadline : ℕ) :
    (limiter.settleFrom deadline).2.length
      ≤ 1 + Sweeper.tolerance / limiter.period := by
  have hperiod : 0 < limiter.period := Sweeper.period_pos _
  by_cases hlate : Sweeper.tolerance < limiter.now - deadline
  · have hone := length_settleFrom_of_late hlate
    exact hone.trans (Nat.le_add_right ..)
  · have hclose := length_settleFrom_of_close limiter deadline (by omega)
    have hmono : (limiter.now + limiter.period - deadline) / limiter.period
        ≤ (Sweeper.tolerance + limiter.period) / limiter.period := by
      apply Nat.div_le_div_right
      omega
    rw [Nat.add_div_right _ hperiod] at hmono
    omega

-- ========================================================== one jump

/-- A jump of any length, of a limiter in any state, brings on at most one
sweep more than there are whole periods in the tolerance: one if the period
exceeds the tolerance, and one as well if the jump ends later than that
after the deadline. Then the sweeper waits again. -/
theorem sweeps_advance_le (limiter : Limiter) (nanos : ℕ) :
    (limiter.advance nanos).2.countP Event.isSwept
        ≤ 1 + Sweeper.tolerance / limiter.period
      ∧ (Sweeper.tolerance < limiter.period →
        (limiter.advance nanos).2.countP Event.isSwept ≤ 1)
      ∧ (∀ deadline, limiter.sweeper = .waiting deadline →
        deadline + Sweeper.tolerance < limiter.now + nanos →
        (limiter.advance nanos).2.countP Event.isSwept ≤ 1)
      ∧ (limiter.advance nanos).1.Settled := by
  have hsweeps := (elapses_advance limiter nanos).isSwept
  rw [List.countP_eq_length.mpr hsweeps]
  have hall : (limiter.advance nanos).2.length
      ≤ 1 + Sweeper.tolerance / limiter.period := by
    unfold advance settle
    split
    · apply length_settleFrom_le
    · simp
  refine ⟨hall, ?_, ?_, settled_advance _ _⟩
  · intro hlong
    rwa [Nat.div_eq_of_lt hlong] at hall
  · intro deadline hwaiting hlate
    simp only [advance, settle, hwaiting]
    apply length_settleFrom_of_late
    show _ < limiter.now + nanos - deadline
    omega

/-- With a period of a millisecond, a jump of six brings on six sweeps at
one instant. -/
theorem sweeps_advance_six :
    let limits : Settings.RateLimit := ⟨true, 1, 2, .ofNanos 1000000⟩
    let limiter := (start limits).1
    limits.fault? = none
      ∧ 0 < limits.evictionInterval.nanos
      ∧ limits.evictionInterval.nanos < wordBound
      ∧ (limiter.advance 6000000).1.now = 6000000
      ∧ ¬(limiter.advance 6000000).2.countP Event.isSwept ≤ 1
      ∧ (limiter.advance 6000000).2.countP Event.isSwept
        = 1 + Sweeper.tolerance / limiter.period := by
  decide +kernel

end Turnstile.Limiter
