/-
What happens to a limiter on which nobody acts.

The clock goes on, and whenever the sweeper's deadline is due the sweeper
sweeps once, reports it and sets the next deadline (`beat`). `Elapses` says
just that, with the reports in order. A jump of the clock, a span of time
and a wait for the sweeper's end differ in where the clock stops on the way,
and are all of this kind (`elapses_advance`, `elapses_sleep`,
`elapses_join`). So whatever holds while nobody acts is an induction on
`Elapses` with three cases.

When it is over the sweeper has nothing to do: its deadline is not due yet
(`Settled`).

Chain (limiter): Limiter/Clock.lean below; CatchUp.lean, Calls.lean,
Lifecycle.lean and Reclaim.lean above.
-/
import Mathlib
import Turnstile.Limiter.Run

namespace Turnstile

/-- The event reports a background sweep. -/
def Event.isSwept : Event → Bool
  | .swept .. => true
  | _ => false

namespace Limiter

-- ============================================================= one sweep

/-- The limiter after the background sweep that was due at `deadline`. -/
def beat (limiter : Limiter) (deadline : ℕ) : Limiter :=
  { limiter with
    registry := limiter.registry.sweep limiter.now
    sweeper := .waiting
      (Sweeper.nextDeadline limiter.now limiter.period deadline) }

/-- The clock goes on, and each sweep that becomes due is made and
reported. -/
inductive Elapses : Limiter → List Event → Limiter → Prop
  | rest (limiter : Limiter) : Elapses limiter [] limiter
  | wait {limiter last : Limiter} {events : List Event} (nanos : ℕ)
      (hrest : Elapses { limiter with now := limiter.now + nanos } events
        last) :
      Elapses limiter events last
  | beat {limiter last : Limiter} {events : List Event} {deadline : ℕ}
      (hwaiting : limiter.sweeper = .waiting deadline)
      (hdue : Sweeper.tickAfter deadline ≤ Sweeper.tickBefore limiter.now)
      (hrest : Elapses (limiter.beat deadline) events last) :
      Elapses limiter (limiter.sweepEvent :: events) last

variable {limiter mid last : Limiter} {events more : List Event}
  {deadline : ℕ}

theorem Elapses.trans (hfirst : Elapses limiter events mid)
    (hsecond : Elapses mid more last) :
    Elapses limiter (events ++ more) last := by
  induction hfirst with
  | rest limiter => exact hsecond
  | wait nanos _ ih => exact .wait nanos (ih hsecond)
  | beat hwaiting hdue _ ih => exact .beat hwaiting hdue (ih hsecond)

-- =================================================== how time can pass

theorem elapses_settleFrom (limiter : Limiter) (deadline : ℕ) :
    Elapses { limiter with sweeper := .waiting deadline }
      (limiter.settleFrom deadline).2 (limiter.settleFrom deadline).1 := by
  fun_induction settleFrom limiter deadline with
  | case1 limiter deadline hdue rest ih =>
      exact Elapses.beat rfl hdue ih
  | case2 limiter deadline hdue => exact .rest _

theorem elapses_settle (limiter : Limiter) :
    Elapses limiter limiter.settle.2 limiter.settle.1 := by
  unfold settle
  split
  case h_1 deadline hwaiting =>
    have hsame : { limiter with sweeper := .waiting deadline } = limiter := by
      rw [← hwaiting]
    have hfrom := elapses_settleFrom limiter deadline
    rwa [hsame] at hfrom
  case h_2 => exact .rest _

theorem elapses_advance (limiter : Limiter) (nanos : ℕ) :
    Elapses limiter (limiter.advance nanos).2 (limiter.advance nanos).1 :=
  .wait nanos (elapses_settle _)

theorem elapses_passUntil (limiter : Limiter) (target : ℕ) :
    Elapses limiter (limiter.passUntil target).2
      (limiter.passUntil target).1 := by
  fun_induction passUntil limiter target with
  | case1 limiter hearly next rest ih =>
      have hnext : Elapses limiter next.2 next.1 := elapses_advance ..
      exact hnext.trans ih
  | case2 limiter hlate => exact .rest _

theorem elapses_sleep (limiter : Limiter) (nanos : ℕ) :
    Elapses limiter (limiter.sleep nanos).2 (limiter.sleep nanos).1 :=
  elapses_passUntil ..

/-- Whoever waits for a sweeper that goes on only lets time pass. -/
theorem elapses_join (hwaiting : limiter.sweeper = .waiting deadline)
    (nanos : ℕ) :
    Elapses { limiter with joinable := false } (limiter.join nanos).2.2
      (limiter.join nanos).2.1 := by
  unfold join
  by_cases hjoinable : limiter.joinable = true
  · simp only [hjoinable, if_true, hwaiting]
    exact elapses_sleep ..
  · have hsame : { limiter with joinable := false } = limiter := by
      rw [← Bool.eq_false_iff.mpr hjoinable]
    rw [if_neg hjoinable, hsame]
    exact .rest _

-- ============================================== what stays as it was

/-- Nothing but the registry, the clock and the sweeper is touched. -/
theorem Elapses.frame (h : Elapses limiter events last) :
    last = { limiter with
      registry := last.registry
      now := last.now
      sweeper := last.sweeper } := by
  induction h with
  | rest limiter => rfl
  | wait nanos _ ih => exact ih
  | beat hwaiting hdue _ ih => exact ih

/-- All that is reported is sweeps. -/
theorem Elapses.isSwept (h : Elapses limiter events last) :
    ∀ event ∈ events, event.isSwept = true := by
  induction h with
  | rest limiter => simp
  | wait nanos _ ih => exact ih
  | beat hwaiting hdue _ ih =>
      intro event hmem
      rcases List.mem_cons.mp hmem with rfl | hmem
      · rfl
      · exact ih event hmem

theorem Elapses.waiting (h : Elapses limiter events last)
    (hwaiting : ∃ deadline, limiter.sweeper = .waiting deadline) :
    ∃ deadline, last.sweeper = .waiting deadline := by
  induction h with
  | rest limiter => exact hwaiting
  | wait nanos _ ih => exact ih hwaiting
  | beat _ hdue _ ih => exact ih ⟨_, rfl⟩

/-- Without a sweeper the clock goes on alone. -/
theorem Elapses.of_stopped (h : Elapses limiter events last)
    (hstopped : limiter.sweeper = .stopped) :
    events = []
      ∧ ∃ nanos, last = { limiter with now := limiter.now + nanos } := by
  induction h with
  | rest limiter => exact ⟨rfl, 0, rfl⟩
  | wait nanos _ ih =>
      obtain ⟨hsilent, more, hlast⟩ := ih hstopped
      refine ⟨hsilent, nanos + more, ?_⟩
      rw [hlast, ← Nat.add_assoc]
  | beat hwaiting _ _ _ =>
      rw [hstopped] at hwaiting
      cases hwaiting

-- ============================================================== settled

/-- The sweeper has nothing to do at the present instant. -/
def Settled (limiter : Limiter) : Prop :=
  ∀ deadline, limiter.sweeper = .waiting deadline →
    Sweeper.tickBefore limiter.now < Sweeper.tickAfter deadline

theorem settled_settleFrom (limiter : Limiter) (deadline : ℕ) :
    (limiter.settleFrom deadline).1.Settled := by
  fun_induction settleFrom limiter deadline with
  | case1 limiter deadline hdue rest ih => exact ih
  | case2 limiter deadline hdue =>
      intro other hwaiting
      cases hwaiting
      exact Nat.lt_of_not_le hdue

theorem settled_advance (limiter : Limiter) (nanos : ℕ) :
    (limiter.advance nanos).1.Settled := by
  unfold advance settle
  split
  case h_1 deadline hwaiting => exact settled_settleFrom _ _
  case h_2 hother =>
    intro deadline hwaiting
    exact absurd hwaiting (hother deadline)

theorem Settled.sleep (hs : limiter.Settled) (nanos : ℕ) :
    (limiter.sleep nanos).1.Settled := by
  have hpass : ∀ target, (limiter.passUntil target).1.Settled := by
    intro target
    fun_induction passUntil limiter target with
    | case1 limiter hearly next rest ih => exact ih (settled_advance _ _)
    | case2 limiter hlate => exact hs
  exact hpass _

theorem Settled.join (hs : limiter.Settled) (nanos : ℕ) :
    (limiter.join nanos).2.1.Settled := by
  unfold Limiter.join
  by_cases hjoinable : limiter.joinable = true
  · rw [if_pos hjoinable]
    have hleft : { limiter with joinable := false }.Settled := hs
    split
    · exact hleft.sleep nanos
    · exact hleft
    · exact hleft
  · rw [if_neg hjoinable]
    exact hs

/-- A deadline that is not due is at most a millisecond away from being in
the future. -/
theorem Settled.now_lt (hs : limiter.Settled)
    (hwaiting : limiter.sweeper = .waiting deadline) :
    limiter.now < deadline + nanosPerMilli := by
  have hearly := hs deadline hwaiting
  simp only [Sweeper.tickBefore, Sweeper.tickAfter, unitsCovering,
    nanosPerMilli] at *
  omega

end Limiter

end Turnstile
