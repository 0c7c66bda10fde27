/-
A limiter that is disabled.

It admits everything and remembers nothing. Its sweeper was never there, so
time passes without sweeps (`Elapses.idle`), and neither the end of the
sweeper nor a wait for it finds anything to do. What can still happen to the
limiter concerns the flags that say who asked for the end, and so an idle
limiter stays idle (`Idle.perform`).

Chain (limiter): Limiter/Passage.lean below; Http/Charging.lean above.
-/
import Mathlib
import Turnstile.Proofs.Limiter.Passage

namespace Turnstile.Limiter

variable {limiter last : Limiter} {events : List Event}

/-- The limiter admits everything, sweeps never, and tracks nobody. -/
structure Idle (limiter : Limiter) : Prop where
  disabled : limiter.enabled = false
  asleep : ∀ deadline, limiter.sweeper ≠ .waiting deadline
  nobody : limiter.registry.clients = []

theorem request_of_disabled (hdisabled : limiter.enabled = false) (client : String) :
    limiter.request client = (.allowed, limiter) := by
  simp [request, hdisabled]

/-- A request leaves the settings as they are. -/
theorem request_settings (limiter : Limiter) (client : String) :
    (limiter.request client).2.enabled = limiter.enabled
      ∧ (limiter.request client).2.registry.quota = limiter.registry.quota
      ∧ (limiter.request client).2.evictionInterval = limiter.evictionInterval := by
  unfold request
  split <;> exact ⟨rfl, rfl, rfl⟩

theorem idle_start {limits : Settings.RateLimit} (hdisabled : limits.enabled = false) :
    (start limits).1.Idle where
  disabled := hdisabled
  asleep := by simp [start, firstSweeper, hdisabled]
  nobody := rfl

theorem Elapses.idle (h : Elapses limiter events last) (hidle : limiter.Idle) :
    last.Idle := by
  induction h with
  | rest limiter => exact hidle
  | wait nanos _ ih => exact ih ⟨hidle.disabled, hidle.asleep, hidle.nobody⟩
  | beat hwaiting _ _ _ => exact absurd hwaiting (hidle.asleep _)

theorem Idle.stopSweeper (hidle : limiter.Idle) : limiter.stopSweeper.1.Idle := by
  unfold Limiter.stopSweeper
  split
  · next deadline hwaiting => exact absurd hwaiting (hidle.asleep deadline)
  · exact hidle

theorem Idle.join (hidle : limiter.Idle) (nanos : ℕ) :
    (limiter.join nanos).2.1.Idle := by
  have hleft : { limiter with joinable := false }.Idle :=
    ⟨hidle.disabled, hidle.asleep, hidle.nobody⟩
  unfold Limiter.join
  split
  · split
    · next deadline hwaiting => exact absurd hwaiting (hidle.asleep deadline)
    · exact hleft
    · exact hleft
  · exact hidle

/-- Nothing that can happen to an idle limiter gives it something to do. -/
theorem Idle.perform (hidle : limiter.Idle) (action : Action) :
    (limiter.perform action).2.1.Idle := by
  cases action with
  | request client =>
      show (limiter.request client).2.Idle
      rw [request_of_disabled hidle.disabled]
      exact hidle
  | evict =>
      have hkept : limiter.evict.2 = limiter := by simp [evict, hidle.disabled]
      show limiter.evict.2.Idle
      rw [hkept]
      exact hidle
  | advance nanos => exact (elapses_advance limiter nanos).idle hidle
  | sleep nanos => exact (elapses_sleep limiter nanos).idle hidle
  | shutdown =>
      have hstopped : { limiter with stopRequested := true }.stopSweeper.1.Idle :=
        Idle.stopSweeper ⟨hidle.disabled, hidle.asleep, hidle.nobody⟩
      simp only [Limiter.perform, Limiter.shutdown]
      split <;> exact hstopped
  | join nanos => exact hidle.join nanos
  | release =>
      exact Idle.stopSweeper ⟨hidle.disabled, hidle.asleep, hidle.nobody⟩

end Turnstile.Limiter
