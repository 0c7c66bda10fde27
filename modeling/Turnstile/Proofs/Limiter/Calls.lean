/-
What happens to a limiter, as calls of its registry.

An enabled limiter is a registry on a clock (`timed`), and whatever happens
to it is a run of calls there: a request and a sweep on demand are one call
each, and time passes as waits with background sweeps between them. What a
run of actions comes to is told by `Mirrors`: the clients' requests are the
same ones, and every sweep was either asked for or reported.

The passing of time has no requests (`Elapses.passes`), whatever the sweeper
makes of it, so `mirrors_perform` needs its cases only once, and
`mirrors_run` is an induction on the actions.

Chain (limiter): Limiter/Passage.lean and Registry/Invariant.lean below;
whatever is said of registries on a clock carries over to limiters by
`mirrors_run` (`Sound.run` is the first of it), and from there to the service
(Http/Limited.lean).
-/
import Mathlib
import Turnstile.Limiter.Run
import Turnstile.Proofs.Limiter.Passage
import Turnstile.Proofs.Registry.History
import Turnstile.Proofs.Registry.Invariant

namespace Turnstile

namespace Limiter

open Registry (Timed Call run_append)

/-- What a limiter is to its clients. -/
def timed (limiter : Limiter) : Timed :=
  ⟨limiter.registry, limiter.now⟩

/-- The calls are what the actions, with these events, come to. -/
structure Mirrors (before : Limiter) (actions : List Action) (events : List Event)
    (calls : List Call) (after : Limiter) : Prop where
  timed_eq : after.timed = (before.timed.run calls).2
  enabled_eq : after.enabled = before.enabled
  requests : ∀ client, calls.count (.request client) = actions.count (.request client)
  sweeps : calls.count .sweep = actions.count .evict + events.countP Event.isSwept

variable {before mid after : Limiter} {actions more : List Action}
  {events later : List Event} {calls rest : List Call}

theorem Mirrors.append (hfirst : Mirrors before actions events calls mid)
    (hsecond : Mirrors mid more later rest after) :
    Mirrors before (actions ++ more) (events ++ later) (calls ++ rest) after where
  timed_eq := by rw [run_append, ← hfirst.timed_eq, hsecond.timed_eq]
  enabled_eq := hsecond.enabled_eq.trans hfirst.enabled_eq
  requests := by
    intro client
    rw [List.count_append, List.count_append, hfirst.requests, hsecond.requests]
  sweeps := by
    rw [List.count_append, List.count_append, List.countP_append, hfirst.sweeps,
      hsecond.sweeps]
    omega

-- ==================================================== the passing of time

/-- Nobody acts on the limiter. -/
def Passes (before : Limiter) (after : Limiter × List Event) : Prop :=
  ∃ calls, Mirrors before [] after.2 calls after.1

theorem Passes.trans {next last : Limiter × List Event} (hfirst : Passes before next)
    (hsecond : Passes next.1 last) : Passes before (last.1, next.2 ++ last.2) := by
  obtain ⟨calls, hfirst⟩ := hfirst
  obtain ⟨rest, hsecond⟩ := hsecond
  exact ⟨calls ++ rest, hfirst.append hsecond⟩

/-- Clients see nothing of the sweeper's state and of what else is known. -/
theorem passes_of_timed_eq (htimed : after.timed = before.timed)
    (henabled : after.enabled = before.enabled)
    (hsilent : events.countP Event.isSwept = 0) : Passes before (after, events) := by
  refine ⟨[], htimed, henabled, fun _ => rfl, ?_⟩
  simp [hsilent]

/-- Waits, with a sweep for each that is reported. -/
theorem Elapses.passes (h : Elapses before events after) :
    Passes before (after, events) := by
  induction h with
  | rest limiter => exact passes_of_timed_eq rfl rfl rfl
  | @wait limiter last events nanos _ ih =>
      have hwait : Passes limiter ({ limiter with now := limiter.now + nanos }, []) :=
        ⟨[.wait nanos], rfl, rfl, fun _ => rfl, rfl⟩
      exact hwait.trans ih
  | @beat limiter last events deadline _ _ _ ih =>
      have hsweep : Passes limiter (limiter.beat deadline, [limiter.sweepEvent]) :=
        ⟨[.sweep], rfl, rfl, fun _ => rfl, rfl⟩
      exact hsweep.trans ih

-- ================================================================ the end

theorem passes_stopSweeper (limiter : Limiter) : Passes limiter limiter.stopSweeper := by
  unfold stopSweeper
  split <;> exact passes_of_timed_eq rfl rfl rfl

theorem Passes.of_silent {next : Limiter × List Event} (hpasses : Passes mid next)
    (htimed : mid.timed = before.timed) (henabled : mid.enabled = before.enabled) :
    Passes before next :=
  (show Passes before (mid, []) from passes_of_timed_eq htimed henabled rfl).trans hpasses

theorem passes_shutdown (limiter : Limiter) : Passes limiter limiter.shutdown := by
  have hstop : Passes limiter { limiter with stopRequested := true }.stopSweeper :=
    (passes_stopSweeper _).of_silent rfl rfl
  simp only [shutdown]
  split
  · have hsay : Passes limiter (limiter, [.shutdownRequested]) :=
      passes_of_timed_eq rfl rfl rfl
    exact hsay.trans hstop
  · exact hstop

theorem passes_release (limiter : Limiter) : Passes limiter limiter.release := by
  apply (passes_stopSweeper _).of_silent <;> rfl

theorem passes_join (limiter : Limiter) (nanos : ℕ) :
    Passes limiter (limiter.join nanos).2 := by
  have hsleep : Passes limiter ({ limiter with joinable := false }.sleep nanos) :=
    (elapses_sleep _ nanos).passes.of_silent rfl rfl
  have hleft : Passes limiter ({ limiter with joinable := false }, []) :=
    passes_of_timed_eq rfl rfl rfl
  have hfailed : Passes limiter ({ limiter with joinable := false }, [.sweeperFailed]) :=
    passes_of_timed_eq rfl rfl rfl
  simp only [join]
  split
  · split
    case h_1 => exact hsleep
    case h_2 => exact hfailed
    case h_3 => exact hleft
  · exact passes_of_timed_eq rfl rfl rfl

-- ================================================================ actions

theorem Passes.mirrors {next : Limiter × List Event} (hpasses : Passes before next)
    {action : Action} (hasks : ∀ client, action ≠ .request client)
    (hevict : action ≠ .evict) :
    ∃ calls, Mirrors before [action] next.2 calls next.1 := by
  obtain ⟨calls, htimed, henabled, hrequests, hsweeps⟩ := hpasses
  refine ⟨calls, htimed, henabled, fun client => ?_, ?_⟩
  · rw [hrequests, List.count_singleton, beq_eq_false_iff_ne.mpr (hasks client)]
    rfl
  · rw [hsweeps, List.count_singleton, beq_eq_false_iff_ne.mpr hevict]
    rfl

/-- What one action comes to. -/
theorem mirrors_perform (henabled : before.enabled = true) (action : Action) :
    ∃ calls, Mirrors before [action] (before.perform action).2.2 calls
      (before.perform action).2.1 := by
  cases action with
  | request client =>
      refine ⟨[.request client], ?_, ?_, fun other => ?_, rfl⟩
      · simp [perform, request, henabled, timed, Timed.run, Timed.perform]
      · simp [perform, request, henabled]
      · simp [List.count_singleton]
  | evict =>
      refine ⟨[.sweep], ?_, ?_, fun _ => rfl, rfl⟩
      · simp [perform, evict, henabled, timed, Timed.run, Timed.perform]
      · simp [perform, evict, henabled]
  | advance nanos =>
      exact (elapses_advance before nanos).passes.mirrors (by simp) (by simp)
  | sleep nanos =>
      exact (elapses_sleep before nanos).passes.mirrors (by simp) (by simp)
  | shutdown =>
      exact (passes_shutdown before).mirrors (by simp) (by simp)
  | join nanos =>
      exact (passes_join before nanos).mirrors (by simp) (by simp)
  | release =>
      exact (passes_release before).mirrors (by simp) (by simp)

/-- What any run of actions comes to. -/
theorem mirrors_run (henabled : before.enabled = true) (actions : List Action) :
    ∃ calls, Mirrors before actions (before.run actions).2.2 calls
      (before.run actions).2.1 := by
  induction actions generalizing before with
  | nil => exact ⟨[], rfl, rfl, fun _ => rfl, rfl⟩
  | cons action actions ih =>
      obtain ⟨calls, hfirst⟩ := mirrors_perform henabled action
      obtain ⟨rest, hrest⟩ := ih (hfirst.enabled_eq.trans henabled)
      exact ⟨calls ++ rest, hfirst.append hrest⟩

-- ======================================================== reachable states

/-- What an enabled limiter is at every instant. -/
structure Sound (quota : Quota) (limiter : Limiter) : Prop where
  enabled : limiter.enabled = true
  quota_eq : limiter.registry.quota = quota
  sound : limiter.timed.Sound

variable {quota : Quota} {limiter : Limiter}

theorem sound_start {limits : Settings.RateLimit} (henabled : limits.enabled = true) :
    (start limits).1.Sound limits.quota where
  enabled := henabled
  quota_eq := rfl
  sound := Registry.sound_start limits.quota

theorem Sound.run (hquota : quota.Usable) (hs : limiter.Sound quota)
    (actions : List Action) : (limiter.run actions).2.1.Sound quota := by
  obtain ⟨henabled, rfl, hsound⟩ := hs
  obtain ⟨calls, htimed, hsame, -, -⟩ := mirrors_run henabled actions
  obtain ⟨hlater, hquota_eq⟩ := hsound.run hquota calls
  rw [← htimed] at hlater hquota_eq
  exact ⟨hsame.trans henabled, hquota_eq, hlater⟩

theorem Sound.request_fst (hs : limiter.Sound quota) (client : String) :
    (limiter.request client).1 = (limiter.registry.request limiter.now client).1 := by
  unfold request
  rw [if_pos hs.enabled]

end Limiter

end Turnstile
