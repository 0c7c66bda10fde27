/-
Spans of time, and where they are cut.

While time passes by itself, nothing depends on where the clock is stopped
and set going again. A stop before the next deadline finds the sweeper with
nothing to do (`settled_stoppedAt`), so the clock goes on from there to the
same millisecond (`step_of_stop`); and at a deadline the clock stops anyway.
So a span is the spans into which it is cut (`passUntil_of_stop`), and whole
milliseconds add up (`sleep_add`).

Chain (limiter): Passage.lean and CatchUp.lean below; Rhythm.lean above.
-/
import Mathlib
import Turnstile.Proofs.Duration.Covering
import Turnstile.Proofs.Limiter.CatchUp

namespace Turnstile

namespace Limiter

open Sweeper (tickBefore tickAfter)

variable {limiter : Limiter} {first last deadline : ℕ}

-- ======================================================== one stop more

/-- The clock has gone on, and nothing was done. -/
def later (limiter : Limiter) (nanos : ℕ) : Limiter :=
  { limiter with now := limiter.now + nanos }

@[simp] theorem later_sweeper (limiter : Limiter) (nanos : ℕ) :
    (limiter.later nanos).sweeper = limiter.sweeper := rfl

@[simp] theorem later_registry (limiter : Limiter) (nanos : ℕ) :
    (limiter.later nanos).registry = limiter.registry := rfl

@[simp] theorem later_period (limiter : Limiter) (nanos : ℕ) :
    (limiter.later nanos).period = limiter.period := rfl

@[simp] theorem later_now (limiter : Limiter) (nanos : ℕ) :
    (limiter.later nanos).now = limiter.now + nanos := rfl

theorem later_later (limiter : Limiter) (nanos more : ℕ) :
    (limiter.later nanos).later more = limiter.later (nanos + more) := by
  simp [later, Nat.add_assoc]

/-- The clock has gone on to a later millisecond, and nothing was done. -/
def stoppedAt (limiter : Limiter) (tick : ℕ) : Limiter :=
  limiter.later ((tick - tickBefore limiter.now) * nanosPerMilli)

theorem stoppedAt_sweeper (limiter : Limiter) (tick : ℕ) :
    (limiter.stoppedAt tick).sweeper = limiter.sweeper :=
  later_sweeper ..

theorem stoppedAt_registry (limiter : Limiter) (tick : ℕ) :
    (limiter.stoppedAt tick).registry = limiter.registry :=
  later_registry ..

theorem stoppedAt_period (limiter : Limiter) (tick : ℕ) :
    (limiter.stoppedAt tick).period = limiter.period :=
  later_period ..

theorem tickBefore_stoppedAt (hle : tickBefore limiter.now ≤ first) :
    tickBefore (limiter.stoppedAt first).now = first := by
  rw [stoppedAt, later_now, Sweeper.tickBefore_add]
  omega

/-- Two ways to a millisecond: with a stop before it, and without. -/
theorem stoppedAt_stoppedAt (hearly : tickBefore limiter.now ≤ first)
    (hle : first ≤ last) :
    (limiter.stoppedAt first).stoppedAt last = limiter.stoppedAt last := by
  have hspan : (first - tickBefore limiter.now) + (last - first)
      = last - tickBefore limiter.now := by omega
  rw [stoppedAt, tickBefore_stoppedAt hearly, stoppedAt, stoppedAt,
    later_later, ← Nat.add_mul, hspan]

theorem nextTick_le (limiter : Limiter) (target : ℕ) :
    limiter.nextTick target ≤ target := by
  unfold nextTick
  split
  · exact Nat.min_le_left ..
  · exact le_rfl

theorem nextTick_of_waiting (hwaiting : limiter.sweeper = .waiting deadline)
    (target : ℕ) :
    limiter.nextTick target
      = min target (max (tickAfter deadline) (tickBefore limiter.now + 1)) := by
  unfold nextTick
  rw [hwaiting]

theorem nextTick_of_idle
    (hidle : ¬∃ deadline, limiter.sweeper = .waiting deadline) (target : ℕ) :
    limiter.nextTick target = target := by
  unfold nextTick
  split
  case h_1 deadline hwaiting => exact absurd ⟨deadline, hwaiting⟩ hidle
  case h_2 => rfl

/-- What comes next depends on the target only if it comes first. -/
theorem nextTick_eq_or (hle : first ≤ last) :
    limiter.nextTick first = limiter.nextTick last
      ∨ limiter.nextTick first = first ∧ first < limiter.nextTick last := by
  by_cases hsweeper : ∃ deadline, limiter.sweeper = .waiting deadline
  · obtain ⟨deadline, hwaiting⟩ := hsweeper
    rw [nextTick_of_waiting hwaiting, nextTick_of_waiting hwaiting]
    omega
  · rw [nextTick_of_idle hsweeper, nextTick_of_idle hsweeper]
    omega

/-- What comes next is the same after a stop on the way to it. -/
theorem nextTick_stoppedAt (hearly : tickBefore limiter.now < first)
    (hidle : first < limiter.nextTick last) :
    (limiter.stoppedAt first).nextTick last = limiter.nextTick last := by
  have hthere := tickBefore_stoppedAt hearly.le
  by_cases hsweeper : ∃ deadline, limiter.sweeper = .waiting deadline
  · obtain ⟨deadline, hwaiting⟩ := hsweeper
    have hstill := (limiter.stoppedAt_sweeper first).trans hwaiting
    rw [nextTick_of_waiting hwaiting] at hidle ⊢
    rw [nextTick_of_waiting hstill, hthere]
    omega
  · have hstill := hsweeper
    rw [← limiter.stoppedAt_sweeper first] at hstill
    rw [nextTick_of_idle hsweeper, nextTick_of_idle hstill]

/-- A sweeper that has nothing to do does nothing. -/
theorem Settled.settle (hs : limiter.Settled) :
    limiter.settle = (limiter, []) := by
  unfold Limiter.settle
  split
  case h_1 deadline hwaiting =>
    have hearly := hs deadline hwaiting
    rw [settleFrom_of_not_due (Nat.not_le.mpr hearly), ← hwaiting]
  case h_2 => rfl

theorem settled_stoppedAt (hearly : tickBefore limiter.now < first)
    (hidle : first < limiter.nextTick last) :
    (limiter.stoppedAt first).Settled := by
  intro deadline hwaiting
  rw [stoppedAt_sweeper] at hwaiting
  rw [nextTick_of_waiting hwaiting] at hidle
  rw [tickBefore_stoppedAt hearly.le]
  omega

theorem step_eq (limiter : Limiter) (target : ℕ) :
    limiter.step target
      = (limiter.stoppedAt (limiter.nextTick target)).settle := rfl

/-- A clock that is stopped where nothing would happen anyway goes on as if
it had not been stopped. -/
theorem step_of_stop (hearly : tickBefore limiter.now < first)
    (hidle : first < limiter.nextTick last) :
    (limiter.stoppedAt first).step last = limiter.step last := by
  rw [step_eq, step_eq, nextTick_stoppedAt hearly hidle,
    stoppedAt_stoppedAt hearly.le hidle.le]

theorem passUntil_of_early (hearly : tickBefore limiter.now < last) :
    limiter.passUntil last
      = (((limiter.step last).1.passUntil last).1,
        (limiter.step last).2 ++ ((limiter.step last).1.passUntil last).2) := by
  rw [passUntil, if_pos hearly]

/-- The first step may be that of a nearer target. -/
theorem passUntil_of_nearer (hearly : tickBefore limiter.now < first)
    (hle : first ≤ last) :
    limiter.passUntil last
      = (((limiter.step first).1.passUntil last).1,
        (limiter.step first).2
          ++ ((limiter.step first).1.passUntil last).2) := by
  rw [passUntil_of_early (hearly.trans_le hle)]
  rcases nextTick_eq_or hle with hsame | ⟨hfirst, hidle⟩
  · have hstep : limiter.step first = limiter.step last := by
      rw [step_eq, step_eq, hsame]
    rw [hstep]
  · have hstop : limiter.step first = (limiter.stoppedAt first, []) := by
      rw [step_eq, hfirst, (settled_stoppedAt hearly hidle).settle]
    have hthere : tickBefore (limiter.stoppedAt first).now < last := by
      rw [tickBefore_stoppedAt hearly.le]
      exact hidle.trans_le (limiter.nextTick_le last)
    rw [hstop, passUntil_of_early hthere, step_of_stop hearly hidle]
    rfl

/-- Time passes in two spans as it does in one. -/
theorem passUntil_of_stop (limiter : Limiter) (hle : first ≤ last) :
    limiter.passUntil last
      = (((limiter.passUntil first).1.passUntil last).1,
        (limiter.passUntil first).2
          ++ ((limiter.passUntil first).1.passUntil last).2) := by
  fun_induction passUntil limiter first with
  | case1 limiter hearly next rest ih =>
      rw [passUntil_of_nearer hearly hle, ih, List.append_assoc]
  | case2 limiter hlate => rfl

-- ======================================================== spans of time

theorem passUntil_now (limiter : Limiter) (target : ℕ) :
    (limiter.passUntil target).1.now = limiter.now
      + (target - tickBefore limiter.now) * nanosPerMilli := by
  fun_induction passUntil limiter target with
  | case1 limiter hearly next rest ih =>
      have hforward := limiter.tickBefore_lt_nextTick hearly
      have hwithin := limiter.nextTick_le target
      have hnow : next.1.now = limiter.now
          + (limiter.nextTick target - tickBefore limiter.now)
            * nanosPerMilli := advance_now ..
      have hspan : (limiter.nextTick target - tickBefore limiter.now)
          + (target - limiter.nextTick target)
          = target - tickBefore limiter.now := by omega
      have hthere : tickBefore limiter.now
          + (limiter.nextTick target - tickBefore limiter.now)
          = limiter.nextTick target := by omega
      rw [ih, hnow, Sweeper.tickBefore_add, hthere, Nat.add_assoc,
        ← Nat.add_mul, hspan]
  | case2 limiter hlate =>
      rw [Nat.sub_eq_zero_of_le (Nat.le_of_not_lt hlate), Nat.zero_mul,
        Nat.add_zero]

theorem tickBefore_mul (tick : ℕ) : tickBefore (tick * nanosPerMilli) = tick :=
  Nat.mul_div_cancel _ (by decide)

theorem stoppedAt_now {tick : ℕ} (hwhole : limiter.now = tick * nanosPerMilli)
    (hle : tick ≤ first) :
    (limiter.stoppedAt first).now = first * nanosPerMilli := by
  rw [stoppedAt, later_now, hwhole, tickBefore_mul, ← Nat.add_mul]
  congr 1
  omega

theorem tickAfter_mul (tick : ℕ) : tickAfter (tick * nanosPerMilli) = tick :=
  unitsCovering_mul (by decide) tick

/-- On whole milliseconds a span ends where it says. -/
theorem sleep_eq_passUntil {tick : ℕ}
    (hwhole : limiter.now = tick * nanosPerMilli) (millis : ℕ) :
    limiter.sleep (millis * nanosPerMilli)
      = limiter.passUntil (tick + millis) := by
  rw [sleep, hwhole, ← Nat.add_mul, tickAfter_mul]

theorem sleep_now {tick : ℕ} (hwhole : limiter.now = tick * nanosPerMilli)
    (millis : ℕ) :
    (limiter.sleep (millis * nanosPerMilli)).1.now
      = (tick + millis) * nanosPerMilli := by
  rw [sleep_eq_passUntil hwhole, passUntil_now, hwhole, tickBefore_mul,
    ← Nat.add_mul]
  congr 1
  omega

/-- On whole milliseconds, time passes in two spans as it does in one. -/
theorem sleep_add {span more : ℕ} (hwhole : nanosPerMilli ∣ limiter.now)
    (hspan : nanosPerMilli ∣ span) (hmore : nanosPerMilli ∣ more) :
    limiter.sleep (span + more)
      = (((limiter.sleep span).1.sleep more).1,
        (limiter.sleep span).2 ++ ((limiter.sleep span).1.sleep more).2) := by
  obtain ⟨tick, htick⟩ := exists_eq_mul_left_of_dvd hwhole
  obtain ⟨millis, rfl⟩ := exists_eq_mul_left_of_dvd hspan
  obtain ⟨further, rfl⟩ := exists_eq_mul_left_of_dvd hmore
  have hthere := sleep_now htick millis
  rw [← Nat.add_mul, sleep_eq_passUntil hthere, sleep_eq_passUntil htick,
    sleep_eq_passUntil htick, ← Nat.add_assoc]
  exact passUntil_of_stop limiter (Nat.le_add_right ..)

end Limiter

end Turnstile
