/-
A limiter while time passes.

The clock either jumps or goes on by itself. A jump (`advance`) brings
the sweeper to its work only at the end: whatever became due on the way
is done then. When time passes by itself (`sleep`), the sweeper meets
each deadline at its own millisecond.

`settle` lets the sweeper work until nothing is due at the present
instant; `passUntil` goes from deadline to deadline. Both end because
each step leaves less to do, which the lemmas before them say.
-/
import Turnstile.Limiter.Basic

namespace Turnstile.Limiter

-- =================================================================== an instant

/-- The report of a background sweep at the present instant. -/
def sweepEvent (limiter : Limiter) : Event :=
  .swept (limiter.registry.sweepCount limiter.now) (limiter.registry.sweep limiter.now).size

/-- Sweeps at the present instant until `deadline`, or the one that follows
it, is not due. -/
def settleFrom (limiter : Limiter) (deadline : Nat) : Limiter × List Event :=
  if Sweeper.tickAfter deadline ≤ Sweeper.tickBefore limiter.now then
    let rest := settleFrom { limiter with registry := limiter.registry.sweep limiter.now }
      (Sweeper.nextDeadline limiter.now limiter.period deadline)
    (rest.1, limiter.sweepEvent :: rest.2)
  else ({ limiter with sweeper := .waiting deadline }, [])
termination_by limiter.now + 1 - deadline
decreasing_by
  exact Sweeper.nextDeadline_nearer (Sweeper.period_pos _) (by assumption)

/-- Lets the sweeper do what is due. -/
def settle (limiter : Limiter) : Limiter × List Event :=
  match limiter.sweeper with
  | .waiting deadline => limiter.settleFrom deadline
  | _ => (limiter, [])

/-- Settling leaves the clock alone. -/
theorem settleFrom_now (limiter : Limiter) (deadline : Nat) :
    (limiter.settleFrom deadline).1.now = limiter.now := by
  fun_induction settleFrom limiter deadline with
  | case1 _ _ _ _ ih => exact ih
  | case2 => rfl

-- ======================================================================== jumps

/-- The clock jumps. -/
def advance (limiter : Limiter) (nanos : Nat) : Limiter × List Event :=
  { limiter with now := limiter.now + nanos }.settle

/-- A jump of the clock is as long as it says. -/
theorem advance_now (limiter : Limiter) (nanos : Nat) :
    (limiter.advance nanos).1.now = limiter.now + nanos := by
  unfold advance settle
  split
  · exact settleFrom_now ..
  · rfl

-- ================================================================= passing time

/-- The next whole millisecond, up to `target`, at which something happens. -/
def nextTick (limiter : Limiter) (target : Nat) : Nat :=
  match limiter.sweeper with
  | .waiting deadline =>
      min target (max (Sweeper.tickAfter deadline) (Sweeper.tickBefore limiter.now + 1))
  | _ => target

/-- The clock goes on to the next millisecond at which something happens. -/
def step (limiter : Limiter) (target : Nat) : Limiter × List Event :=
  limiter.advance
    ((limiter.nextTick target - Sweeper.tickBefore limiter.now) * nanosPerMilli)

/-- Before the target there is always a next millisecond to go to. -/
theorem tickBefore_lt_nextTick (limiter : Limiter) {target : Nat}
    (early : Sweeper.tickBefore limiter.now < target) :
    Sweeper.tickBefore limiter.now < limiter.nextTick target := by
  unfold nextTick
  split
  · exact Nat.lt_min.mpr
      ⟨early, Nat.lt_of_lt_of_le (Nat.lt_succ_self _) (Nat.le_max_right ..)⟩
  · exact early

/-- A step to the next millisecond brings the target nearer. -/
theorem step_nearer (limiter : Limiter) {target : Nat}
    (early : Sweeper.tickBefore limiter.now < target) :
    target - Sweeper.tickBefore (limiter.step target).1.now
      < target - Sweeper.tickBefore limiter.now := by
  have forward := limiter.tickBefore_lt_nextTick early
  rw [step, advance_now, Sweeper.tickBefore_add]
  omega

/-- Time passes until the whole millisecond `target`. -/
def passUntil (limiter : Limiter) (target : Nat) : Limiter × List Event :=
  if Sweeper.tickBefore limiter.now < target then
    let next := limiter.step target
    let rest := next.1.passUntil target
    (rest.1, next.2 ++ rest.2)
  else (limiter, [])
termination_by target - Sweeper.tickBefore limiter.now
decreasing_by
  exact limiter.step_nearer (by assumption)

/-- Time passes, up to the first whole millisecond that is not before the
end of the span. -/
def sleep (limiter : Limiter) (nanos : Nat) : Limiter × List Event :=
  limiter.passUntil (Sweeper.tickAfter (limiter.now + nanos))

end Turnstile.Limiter
