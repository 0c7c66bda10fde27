/-
The rhythm of the background sweeper.

A sweeper that is never late by a whole millisecond keeps its rhythm: each
deadline is a period after the one before, whatever the millisecond at which
it was met, so the rounding up to milliseconds does not add up. `OnBeat` says
so of a limiter after so many sweeps, and that the last of them has come and
the next one not yet. A step of the clock either stops short of the next beat
(`OnBeat.step_of_short`) or is the next beat (`OnBeat.step_of_beat`), so a
span of time is the sweeps at the beats within it (`OnBeat.kept_passUntil`),
and the count of the sweeps tells the beats that have come
(`OnBeat.le_sweeps_iff`).

Chain (limiter): Spans.lean and Lifecycle.lean below.
-/
import Mathlib
import Turnstile.Proofs.Duration.Covering
import Turnstile.Proofs.Limiter.Lifecycle
import Turnstile.Proofs.Limiter.Spans

namespace Turnstile

namespace Limiter

open Sweeper (tickBefore tickAfter)

variable {limits : Settings.RateLimit} {limiter after : Limiter}
  {events : List Event} {deadline tick target sweeps : ℕ}

-- ================================================================ beats

/-- The instant of the sweep of this number, if it is not late: the first
whole millisecond that is not before its deadline. -/
def beatAt (period number : ℕ) : ℕ :=
  tickAfter (number * period) * nanosPerMilli

/-- The clock is at this whole millisecond, and there were so many sweeps. The
sweeper waits for the deadline that is as many periods, and one more, after
the start; the beat before it has come, and its own has not. -/
structure OnBeat (limiter : Limiter) (tick sweeps : ℕ) : Prop where
  whole : limiter.now = tick * nanosPerMilli
  waiting : limiter.sweeper = .waiting ((sweeps + 1) * limiter.period)
  come : tickAfter (sweeps * limiter.period) ≤ tick
  early : tick < tickAfter ((sweeps + 1) * limiter.period)

theorem tickAfter_mono {instant further : ℕ} (hle : instant ≤ further) :
    tickAfter instant ≤ tickAfter further :=
  unitsCovering_mono (by decide) hle

theorem tickAfter_lt_add_period (limiter : Limiter) (instant : ℕ) :
    tickAfter instant < tickAfter (instant + limiter.period) := by
  have hperiod : nanosPerMilli ≤ limiter.period := Nat.le_max_right ..
  simp only [tickAfter, unitsCovering, nanosPerMilli] at hperiod ⊢
  omega

/-- Who is only late because of the rounding keeps the rhythm. -/
theorem nextDeadline_tickAfter (period deadline : ℕ) :
    Sweeper.nextDeadline (tickAfter deadline * nanosPerMilli) period deadline
      = deadline + period := by
  unfold Sweeper.nextDeadline
  rw [if_neg]
  simp only [tickAfter, unitsCovering, nanosPerMilli, Sweeper.tolerance]
  omega

/-- One sweep is due, and the next one is not. -/
theorem settle_of_beat (hwaiting : limiter.sweeper = .waiting deadline)
    (hdue : tickAfter deadline ≤ tickBefore limiter.now)
    (hnext : (limiter.beat deadline).Settled) :
    limiter.settle = (limiter.beat deadline, [limiter.sweepEvent]) := by
  have hearly := hnext _ rfl
  have hrest := @settleFrom_of_not_due
    { limiter with registry := limiter.registry.sweep limiter.now } _
    (Nat.not_le.mpr hearly)
  unfold settle
  rw [hwaiting]
  show limiter.settleFrom deadline = _
  rw [settleFrom, if_pos hdue, hrest]
  rfl

theorem OnBeat.settled (ho : limiter.OnBeat tick sweeps) : limiter.Settled := by
  intro deadline hwaiting
  rw [ho.waiting] at hwaiting
  cases hwaiting
  rw [ho.whole, tickBefore_mul]
  exact ho.early

/-- A stop before the next beat. -/
theorem OnBeat.step_of_short (ho : limiter.OnBeat tick sweeps)
    (hearly : tick < target)
    (hshort : target < tickAfter ((sweeps + 1) * limiter.period)) :
    limiter.step target = (limiter.stoppedAt target, [])
      ∧ (limiter.stoppedAt target).OnBeat target sweeps := by
  have hstill : (limiter.stoppedAt target).OnBeat target sweeps := by
    refine ⟨stoppedAt_now ho.whole hearly.le, ?_, ?_, ?_⟩
    · rw [stoppedAt_sweeper, stoppedAt_period]
      exact ho.waiting
    · rw [stoppedAt_period]
      exact ho.come.trans hearly.le
    · rw [stoppedAt_period]
      exact hshort
  have hnext : limiter.nextTick target = target := by
    rw [nextTick_of_waiting ho.waiting]
    omega
  rw [step_eq, hnext, hstill.settled.settle]
  exact ⟨rfl, hstill⟩

/-- A beat that is met at its own millisecond leads to the next one. -/
theorem onBeat_beat (hnow : limiter.now
      = tickAfter (sweeps * limiter.period) * nanosPerMilli) :
    (limiter.beat (sweeps * limiter.period)).OnBeat
      (tickAfter (sweeps * limiter.period)) sweeps := by
  have hperiod : ∀ deadline, (limiter.beat deadline).period = limiter.period :=
    fun _ => rfl
  have hnext : sweeps * limiter.period + limiter.period
      = (sweeps + 1) * limiter.period := (Nat.succ_mul ..).symm
  refine ⟨hnow, ?_, ?_, ?_⟩
  · rw [beat, hnow, nextDeadline_tickAfter, hnext]
    rfl
  · rw [hperiod]
  · rw [hperiod, ← hnext]
    exact limiter.tickAfter_lt_add_period _

/-- The next beat. -/
theorem OnBeat.step_of_beat (ho : limiter.OnBeat tick sweeps)
    (hcome : tickAfter ((sweeps + 1) * limiter.period) ≤ target) :
    let deadline := (sweeps + 1) * limiter.period
    let there := limiter.stoppedAt (tickAfter deadline)
    limiter.step target = (there.beat deadline, [there.sweepEvent])
      ∧ (there.beat deadline).OnBeat (tickAfter deadline) (sweeps + 1)
      ∧ there.now = beatAt limiter.period (sweeps + 1) := by
  intro deadline there
  have hbefore : limiter.sweeper = .waiting deadline := ho.waiting
  have hearly : tick < tickAfter deadline := ho.early
  have hcome : tickAfter deadline ≤ target := hcome
  have hnow : there.now = tickAfter deadline * nanosPerMilli :=
    stoppedAt_now ho.whole hearly.le
  have hbeat : (there.beat deadline).OnBeat (tickAfter deadline)
      (sweeps + 1) := by
    have hdeadline : deadline = (sweeps + 1) * there.period := by
      rw [stoppedAt_period]
    rw [hdeadline] at hnow ⊢
    exact onBeat_beat hnow
  have hwaiting : there.sweeper = .waiting deadline := by
    rw [stoppedAt_sweeper]
    exact hbefore
  have hdue : tickAfter deadline ≤ tickBefore there.now := by
    rw [hnow, tickBefore_mul]
  have hnext : limiter.nextTick target = tickAfter deadline := by
    rw [nextTick_of_waiting hbefore, ho.whole, tickBefore_mul]
    omega
  rw [step_eq, hnext, settle_of_beat hwaiting hdue hbeat.settled]
  exact ⟨rfl, hbeat, hnow⟩

/-- All that was done since is the sweeps at the beats, one after the other,
and the sweeper keeps the rhythm. -/
structure Kept (before : Limiter) (sweeps tick : ℕ) (events : List Event)
    (after : Limiter) : Prop where
  onBeat : after.OnBeat tick (sweeps + events.length)
  swept : (after.registry, events) = before.registry.sweepAll
    ((List.range' (sweeps + 1) events.length).map (beatAt before.period))

theorem Kept.wait
    (hkept : (limiter.stoppedAt target).Kept sweeps tick events after) :
    limiter.Kept sweeps tick events after := by
  refine ⟨hkept.onBeat, ?_⟩
  rw [hkept.swept, stoppedAt_period, stoppedAt_registry]

theorem Kept.beat (hnow : limiter.now = beatAt limiter.period (sweeps + 1))
    (hdistinct : limiter.registry.clients.Nodup)
    (hkept : (limiter.beat deadline).Kept (sweeps + 1) tick events after) :
    limiter.Kept sweeps tick (limiter.sweepEvent :: events) after := by
  have hcount := Registry.sweepCount_eq_length_removed hdistinct limiter.now
  have hlater : (limiter.registry.sweep limiter.now).sweepAll
      ((List.range' (sweeps + 1 + 1) events.length).map
        (beatAt limiter.period)) = (after.registry, events) :=
    hkept.swept.symm
  refine ⟨?_, ?_⟩
  · have honBeat := hkept.onBeat
    rwa [Nat.add_assoc, Nat.add_comm 1] at honBeat
  · rw [List.length_cons, List.range'_succ, List.map_cons, ← hnow,
      Registry.sweepAll, hlater, ← hcount]
    rfl

theorem Kept.of_step {next : Limiter} {early : List Event}
    (hearly : tickBefore limiter.now < target)
    (hstep : limiter.step target = (next, early))
    (hkept : limiter.Kept sweeps tick (early ++ (next.passUntil target).2)
      (next.passUntil target).1) :
    limiter.Kept sweeps tick (limiter.passUntil target).2
      (limiter.passUntil target).1 := by
  rw [passUntil_of_early hearly, hstep]
  exact hkept

/-- A span of time is the sweeps at the beats within it. -/
theorem OnBeat.kept_passUntil (ho : limiter.OnBeat tick sweeps)
    (hdistinct : limiter.registry.clients.Nodup) (target : ℕ) :
    limiter.Kept sweeps (max tick target) (limiter.passUntil target).2
      (limiter.passUntil target).1 := by
  -- each step brings the clock nearer to the target
  induction hleft : target - tick using Nat.strong_induction_on
    generalizing limiter tick sweeps with
  | h left ih =>
      have htick : tickBefore limiter.now = tick := by
        rw [ho.whole, tickBefore_mul]
      by_cases hearly : tick < target
      · have hstart : tickBefore limiter.now < target := htick.symm ▸ hearly
        rw [Nat.max_eq_right hearly.le]
        by_cases hcome : tickAfter ((sweeps + 1) * limiter.period) ≤ target
        · obtain ⟨hstep, hbeat, hnow⟩ := ho.step_of_beat hcome
          have hthere := hdistinct
          rw [← limiter.stoppedAt_registry] at hthere
          have hrest := ih _ (by have := ho.early; omega) hbeat
            (Registry.nodup_clients_sweep _ hthere) rfl
          rw [Nat.max_eq_right hcome] at hrest
          refine .of_step hstart hstep ?_
          rw [List.singleton_append]
          refine (hrest.beat ?_ hthere).wait
          rw [hnow, stoppedAt_period]
        · obtain ⟨hstep, hstill⟩ := ho.step_of_short hearly (by omega)
          have hthere := hdistinct
          rw [← limiter.stoppedAt_registry target] at hthere
          have hrest := ih _ (by omega) hstill hthere rfl
          rw [Nat.max_self] at hrest
          refine .of_step hstart hstep ?_
          rw [List.nil_append]
          exact hrest.wait
      · rw [Nat.max_eq_left (by omega), passUntil, if_neg (htick.symm ▸ hearly)]
        exact ⟨ho, rfl⟩

/-- The sweeps that there were are those whose beat has come. -/
theorem OnBeat.le_sweeps_iff (ho : limiter.OnBeat tick sweeps) (number : ℕ) :
    number ≤ sweeps ↔ beatAt limiter.period number ≤ limiter.now := by
  have hunit : 0 < nanosPerMilli := by decide
  rw [ho.whole, beatAt, Nat.mul_le_mul_right_iff hunit]
  constructor
  · intro hmade
    exact (tickAfter_mono (Nat.mul_le_mul_right _ hmade)).trans ho.come
  · intro hcome
    by_contra hlater
    have hnext : sweeps + 1 ≤ number := by omega
    have hbeat := tickAfter_mono (Nat.mul_le_mul_right limiter.period hnext)
    have hearly := ho.early
    omega

-- ================================================================= runs

/-- Clients ask, or whole milliseconds pass. -/
inductive Action.Calm : Action → Prop
  | request (client : String) : Calm (.request client)
  | sleep (nanos : ℕ) (hwhole : nanosPerMilli ∣ nanos) : Calm (.sleep nanos)

theorem onBeat_start (henabled : limits.enabled = true)
    (hword : limits.evictionInterval.nanos < wordBound) :
    (start limits).1.OnBeat 0 0 where
  whole := rfl
  waiting := by
    rw [sweeper_start henabled hword, Nat.one_mul]
    rfl
  come := by
    rw [Nat.zero_mul]
    exact le_rfl
  early := by
    have hlater := (start limits).1.tickAfter_lt_add_period 0
    rw [Nat.zero_add] at hlater
    rw [Nat.zero_add, Nat.one_mul]
    exact (Nat.zero_le _).trans_lt hlater

theorem OnBeat.request (ho : limiter.OnBeat tick sweeps) (client : String) :
    (limiter.request client).2.OnBeat tick sweeps := by
  unfold Limiter.request
  split
  · exact ⟨ho.whole, ho.waiting, ho.come, ho.early⟩
  · exact ho

theorem OnBeat.kept_sleep {nanos : ℕ} (ho : limiter.OnBeat tick sweeps)
    (hdistinct : limiter.registry.clients.Nodup)
    (hwhole : nanosPerMilli ∣ nanos) :
    ∃ later, limiter.Kept sweeps later (limiter.sleep nanos).2
      (limiter.sleep nanos).1 := by
  obtain ⟨millis, rfl⟩ := exists_eq_mul_left_of_dvd hwhole
  rw [sleep_eq_passUntil ho.whole]
  exact ⟨_, ho.kept_passUntil hdistinct (tick + millis)⟩

theorem perform_sleep (limiter : Limiter) (nanos : ℕ) :
    (limiter.perform (.sleep nanos)).2 = limiter.sleep nanos := rfl

theorem perform_period {action : Action} (hcalm : action.Calm) :
    (limiter.perform action).2.1.period = limiter.period := by
  cases hcalm with
  | request client =>
      simp only [Limiter.perform, Limiter.request]
      split <;> rfl
  | sleep nanos hwhole =>
      rw [perform_sleep, period, (elapses_sleep limiter nanos).frame]
      rfl

theorem OnBeat.perform {action : Action} (ho : limiter.OnBeat tick sweeps)
    (hdistinct : limiter.registry.clients.Nodup) (hcalm : action.Calm) :
    ∃ later, (limiter.perform action).2.1.OnBeat later
      (sweeps + (limiter.perform action).2.2.countP Event.isSwept) := by
  cases hcalm with
  | request client => exact ⟨tick, ho.request client⟩
  | sleep nanos hwhole =>
      obtain ⟨later, hkept⟩ := ho.kept_sleep hdistinct hwhole
      have hall := (elapses_sleep limiter nanos).isSwept
      refine ⟨later, ?_⟩
      rw [perform_sleep, List.countP_eq_length.mpr hall]
      exact hkept.onBeat

/-- Nothing that is calm brings the sweeper out of its rhythm. -/
theorem OnBeat.run {actions : List Action} (ho : limiter.OnBeat tick sweeps)
    (henabled : limiter.enabled = true)
    (hdistinct : limiter.registry.clients.Nodup)
    (hcalm : ∀ action ∈ actions, action.Calm) :
    (limiter.run actions).2.1.period = limiter.period
      ∧ ∃ later, (limiter.run actions).2.1.OnBeat later
        (sweeps + (limiter.run actions).2.2.countP Event.isSwept) := by
  induction actions generalizing limiter tick sweeps with
  | nil => exact ⟨rfl, tick, ho⟩
  | cons action actions ih =>
      rw [List.forall_mem_cons] at hcalm
      obtain ⟨later, hnext⟩ := ho.perform hdistinct hcalm.1
      obtain ⟨calls, hmirrors⟩ := mirrors_perform henabled action
      have hon : (limiter.perform action).2.1.enabled = true :=
        hmirrors.enabled_eq.trans henabled
      have hlater := distinct_run henabled hdistinct [action]
      obtain ⟨hperiod, last, hlast⟩ := ih hnext hon hlater hcalm.2
      rw [Nat.add_assoc, ← List.countP_append] at hlast
      exact ⟨hperiod.trans (perform_period hcalm.1), last, hlast⟩

-- ========================================================== the theorem

/-- Time that passes in two spans of whole milliseconds passes as in one:
the limiter is the same afterwards, and the reports are. And as long as
clients ask and whole milliseconds pass, the sweeps keep their rhythm: the
sweep of each number was made exactly if its beat has come, which is as many
periods after the start, rounded up to a millisecond; and those of a further
span are made at their beats, one after the other. -/
theorem sweeps_on_beat (henabled : limits.enabled = true)
    (hword : limits.evictionInterval.nanos < wordBound) :
    (∀ (actions : List Action) (span more : ℕ),
      let limiter := ((start limits).1.run actions).2.1
      let first := limiter.sleep span
      let second := first.1.sleep more
      nanosPerMilli ∣ limiter.now → nanosPerMilli ∣ span →
      nanosPerMilli ∣ more →
      limiter.sleep (span + more) = (second.1, first.2 ++ second.2))
      ∧ ∀ actions : List Action, (∀ action ∈ actions, action.Calm) →
        let limiter := ((start limits).1.run actions).2.1
        let sweeps := ((start limits).1.run actions).2.2.countP Event.isSwept
        let period := Sweeper.period limits.evictionInterval
        (∀ number, number ≤ sweeps ↔ beatAt period number ≤ limiter.now)
          ∧ ∀ span, let last := limiter.sleep span
            nanosPerMilli ∣ span →
            (last.1.registry, last.2) = limiter.registry.sweepAll
              ((List.range' (sweeps + 1) last.2.length).map
                (beatAt period)) := by
  refine ⟨?_, ?_⟩
  · intro actions span more limiter first second hwhole hspan hmore
    exact sleep_add hwhole hspan hmore
  · intro actions hcalm limiter sweeps period
    have hnobody : (start limits).1.registry.clients.Nodup := List.nodup_nil
    obtain ⟨hperiod, tick, ho⟩ :=
      (onBeat_start henabled hword).run henabled hnobody hcalm
    rw [Nat.zero_add] at ho
    have hperiod : limiter.period = period := hperiod
    refine ⟨?_, ?_⟩
    · intro number
      rw [← hperiod]
      exact ho.le_sweeps_iff number
    · intro span last hspan
      have hdistinct := distinct_run henabled hnobody actions
      obtain ⟨later, hkept⟩ := ho.kept_sleep hdistinct hspan
      rw [← hperiod]
      exact hkept.swept

/-- With a period of one and a half milliseconds the beats are at two, three,
five and six. Four milliseconds after the start there were two sweeps; in the
next three milliseconds, however they are cut, there are two more. -/
theorem sweeps_on_beat_of_half_milli :
    let limits : Settings.RateLimit := ⟨true, 1, 2, .ofNanos 1500000⟩
    let reached := (start limits).1.run [.request "a", .sleep 4000000]
    let limiter := reached.2.1
    let first := limiter.sleep 1000000
    let second := first.1.sleep 2000000
    let last := limiter.sleep 3000000
    limits.enabled = true ∧ limits.evictionInterval.nanos < wordBound
      ∧ limiter.now = 4000000
      ∧ limiter.sleep (1000000 + 2000000) = (second.1, first.2 ++ second.2)
      ∧ reached.2.2.countP Event.isSwept = 2
      ∧ (last.1.registry, last.2)
        = limiter.registry.sweepAll [5000000, 6000000] := by
  intro limits reached
  have henabled : limits.enabled = true := rfl
  have hword : limits.evictionInterval.nanos < wordBound := by decide
  have hnow : reached.2.1.now = 4000000 := by decide +kernel
  have hwhole : nanosPerMilli ∣ reached.2.1.now := by
    rw [hnow]
    decide
  have hcalm : ∀ action ∈ [Action.request "a", .sleep 4000000],
      action.Calm := by
    simp only [List.forall_mem_cons]
    exact ⟨.request "a", .sleep _ (by decide), by simp⟩
  have hsweeps : reached.2.2.countP Event.isSwept = 2 := by decide +kernel
  have hmore : (reached.2.1.sleep 3000000).2.length = 2 := by decide +kernel
  have hinstants : (List.range' 3 2).map
      (beatAt (Sweeper.period limits.evictionInterval)) = [5000000, 6000000] :=
    by decide +kernel
  obtain ⟨hadd, hbeats⟩ := sweeps_on_beat henabled hword
  have hcut := hadd _ 1000000 2000000 hwhole (by decide) (by decide)
  have hswept := (hbeats _ hcalm).2 3000000 (by decide)
  rw [hsweeps, hmore, hinstants] at hswept
  exact ⟨henabled, hword, hnow, hcut, hsweeps, hswept⟩

end Limiter

end Turnstile
