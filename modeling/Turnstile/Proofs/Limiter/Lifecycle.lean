/-
The life of the background sweeper.

A sweeper that could set its first deadline is running until the limiter is
shut down or let go, and ended from then on (`Running`, `Ended`). Each
action leads from one of the two to the same or the other
(`Running.perform`, `Running.perform_of_ends`, `Ended.perform`), and says
what is reported on the way: sweeps while it runs, the farewell at the first
action that ends it, nothing afterwards. The log of a run is then an
induction on the actions (`Running.log_run`).

A report of a sweep is true: the sweeps of an action, at their instants, are
the registry's own, with the number of clients that each of them removes and
leaves (`Reported`, `Elapses.reported`).

After its end only the clock is left of a limiter, and the registry
(`Ended.perform`): the actions are the calls of a bare registry, with the
same answers.

Chain (limiter): Passage.lean, Calls.lean and Registry/Tracked.lean below;
Join.lean and Reclaim.lean above.
-/
import Mathlib
import Turnstile.Proofs.Limiter.Calls
import Turnstile.Proofs.Registry.Tracked

namespace Turnstile

-- ============================================================= reports

/-- Sweeps at these instants, each with its report: the number of clients
that it removes, and of those who are left. -/
def Registry.sweepAll (registry : Registry) : List ℕ → Registry × List Event
  | [] => (registry, [])
  | now :: rest =>
      let later := (registry.sweep now).sweepAll rest
      (later.1, .swept (registry.removed now).length (registry.sweep now).size
        :: later.2)

/-- What the call wants of the registry, if it is not for the clock alone. -/
def Registry.Call.demand? : Registry.Call → Option Registry.Call
  | .wait _ => none
  | call => some call

namespace Limiter

open Registry (Timed Call)

/-- What the action wants of the registry, if anything. -/
def Action.demand? : Action → Option Call
  | .request client => some (.request client)
  | .evict => some .sweep
  | _ => none

/-- What a bare registry answers instead. -/
def Outcome.plain : Outcome → Registry.Outcome
  | .answered admission => .answered admission
  | .removed count => .removed count
  | _ => .waited

/-- The action ends the sweeper. -/
def Action.ends : Action → Bool
  | .shutdown => true
  | .release => true
  | _ => false

/-- What is reported when the action ends the sweeper. -/
def Action.farewell : Action → List Event
  | .shutdown => [.shutdownRequested, .sweeperStopped]
  | .release => [.sweeperStopped]
  | _ => []

/-- What is reported at the end, if the actions bring it: it is for the first
of them to say. -/
def farewell (actions : List Action) : List Event :=
  ((actions.find? Action.ends).map Action.farewell).getD []

variable {limits : Settings.RateLimit} {limiter last : Limiter}
  {events : List Event} {action : Action} {actions : List Action}

/-- Between the two limiters the registry was swept, at instants in their
order, and each of these sweeps is reported as it was. -/
def Reported (before : Limiter) (events : List Event) (after : Limiter) :
    Prop :=
  ∃ instants, (before.now :: (instants ++ [after.now])).IsChain (· ≤ ·)
    ∧ (after.registry, events.filter Event.isSwept)
      = before.registry.sweepAll instants

theorem reported_of_unswept (hnow : limiter.now ≤ last.now)
    (hsame : last.registry = limiter.registry)
    (hsilent : events.filter Event.isSwept = []) :
    Reported limiter events last := by
  refine ⟨[], by simpa using hnow, ?_⟩
  rw [hsame, hsilent]
  rfl

theorem Elapses.reported (h : Elapses limiter events last)
    (hdistinct : limiter.registry.clients.Nodup) :
    Reported limiter events last := by
  induction h with
  | rest limiter => exact reported_of_unswept le_rfl rfl rfl
  | wait nanos _ ih =>
      obtain ⟨instants, hchain, hsweeps⟩ := ih hdistinct
      exact ⟨instants, hchain.imp_head (Nat.le_add_right ..).trans, hsweeps⟩
  | @beat limiter last events deadline _ _ _ ih =>
      obtain ⟨instants, hchain, hsweeps⟩ :=
        ih (Registry.nodup_clients_sweep limiter.now hdistinct)
      refine ⟨limiter.now :: instants, ?_, ?_⟩
      · exact List.isChain_cons_cons.mpr ⟨le_rfl, hchain⟩
      · have hcount :=
          Registry.sweepCount_eq_length_removed hdistinct limiter.now
        have hlater : (limiter.registry.sweep limiter.now).sweepAll instants
            = (last.registry, events.filter Event.isSwept) := hsweeps.symm
        rw [Registry.sweepAll, hlater, ← hcount]
        rfl

-- ============================================================== phases

/-- The sweeper goes on from deadline to deadline. -/
structure Running (limiter : Limiter) : Prop where
  enabled : limiter.enabled = true
  waiting : ∃ deadline, limiter.sweeper = .waiting deadline
  unstopped : limiter.stopRequested = false

/-- The sweeper was told to stop, and did. -/
structure Ended (limiter : Limiter) : Prop where
  enabled : limiter.enabled = true
  stopped : limiter.sweeper = .stopped
  requested : limiter.stopRequested = true

/-- An interval that fits into a word leaves room for a first deadline. -/
theorem sweeper_start (henabled : limits.enabled = true)
    (hword : limits.evictionInterval.nanos < wordBound) :
    (start limits).1.sweeper
      = .waiting (Sweeper.period limits.evictionInterval) := by
  have hfits :
      Sweeper.period limits.evictionInterval ≤ Sweeper.latestInstant := by
    unfold Sweeper.period Sweeper.latestInstant nanosPerMilli
    unfold wordBound at hword
    omega
  simp [start, firstSweeper, henabled, hfits]

theorem running_start (henabled : limits.enabled = true)
    (hword : limits.evictionInterval.nanos < wordBound) :
    (start limits).1.Running :=
  ⟨henabled, ⟨_, sweeper_start henabled hword⟩, rfl⟩

theorem Elapses.running (h : Elapses limiter events last)
    (hr : limiter.Running) : last.Running := by
  have hwaiting := h.waiting hr.waiting
  rw [h.frame]
  exact ⟨hr.enabled, hwaiting, hr.unstopped⟩

-- ============================================================= running

/-- What is neither a demand nor the end is a passage, and perhaps somebody
who waits. -/
theorem Running.elapses (hr : limiter.Running) (hdemand : action.demand? = none)
    (hgoes : action.ends = false) :
    ∃ joinable, Elapses { limiter with joinable } (limiter.perform action).2.2
      (limiter.perform action).2.1 := by
  cases action with
  | request client => cases hdemand
  | evict => cases hdemand
  | advance nanos => exact ⟨_, elapses_advance limiter nanos⟩
  | sleep nanos => exact ⟨_, elapses_sleep limiter nanos⟩
  | shutdown => cases hgoes
  | join nanos =>
      obtain ⟨deadline, hwaiting⟩ := hr.waiting
      exact ⟨false, elapses_join hwaiting nanos⟩
  | release => cases hgoes

/-- Demands are met without a word. -/
theorem perform_demand (henabled : limiter.enabled = true)
    (hdemand : action.demand? ≠ none) :
    ∃ registry,
      (limiter.perform action).2 = ({ limiter with registry }, []) := by
  cases action with
  | request client =>
      refine ⟨(limiter.registry.request limiter.now client).2, ?_⟩
      simp [perform, request, henabled]
  | evict =>
      refine ⟨limiter.registry.sweep limiter.now, ?_⟩
      simp [perform, evict, henabled]
  | advance | sleep | shutdown | join | release => exact absurd rfl hdemand

/-- A running sweeper goes on, and reports sweeps only. -/
theorem Running.perform (hr : limiter.Running) (hgoes : action.ends = false) :
    (limiter.perform action).2.1.Running
      ∧ ∀ event ∈ (limiter.perform action).2.2, event.isSwept = true := by
  by_cases hdemand : action.demand? = none
  · obtain ⟨joinable, hpassage⟩ := hr.elapses hdemand hgoes
    have hsame : { limiter with joinable }.Running :=
      ⟨hr.enabled, hr.waiting, hr.unstopped⟩
    exact ⟨hpassage.running hsame, hpassage.isSwept⟩
  · obtain ⟨registry, hmet⟩ := perform_demand hr.enabled hdemand
    rw [hmet]
    refine ⟨⟨hr.enabled, hr.waiting, hr.unstopped⟩, ?_⟩
    simp

/-- An action that ends a running sweeper says farewell. -/
theorem Running.perform_of_ends (hr : limiter.Running)
    (hends : action.ends = true) :
    (limiter.perform action).2.1.Ended
      ∧ (limiter.perform action).2.1.registry = limiter.registry
      ∧ (limiter.perform action).2.1.now = limiter.now
      ∧ (limiter.perform action).2.2 = action.farewell := by
  obtain ⟨deadline, hwaiting⟩ := hr.waiting
  have henabled := hr.enabled
  cases action with
  | shutdown =>
      have hstop : limiter.perform .shutdown
          = (.done, { limiter with sweeper := .stopped, stopRequested := true },
            [.shutdownRequested, .sweeperStopped]) := by
        simp [Limiter.perform, shutdown, stopSweeper, hwaiting, henabled,
          hr.unstopped]
      rw [hstop]
      exact ⟨⟨henabled, rfl, rfl⟩, rfl, rfl, rfl⟩
  | release =>
      have hstop : limiter.perform .release
          = (.done, { limiter with
              sweeper := .stopped, stopRequested := true, released := true },
            [.sweeperStopped]) := by
        simp [Limiter.perform, release, stopSweeper, hwaiting]
      rw [hstop]
      exact ⟨⟨henabled, rfl, rfl⟩, rfl, rfl, rfl⟩
  | request | evict | advance | sleep | join => cases hends

-- =============================================================== ended

theorem stopSweeper_of_stopped (hstopped : limiter.sweeper = .stopped) :
    limiter.stopSweeper = (limiter, []) := by
  simp only [stopSweeper, hstopped]

/-- The end cannot be repeated. -/
theorem Ended.shutdown (he : limiter.Ended) :
    limiter.shutdown = (limiter, []) := by
  have hsame : { limiter with stopRequested := true } = limiter := by
    rw [← he.requested]
  unfold Limiter.shutdown
  rw [hsame, stopSweeper_of_stopped he.stopped, he.requested]
  simp

/-- Whoever waits for the end need not wait for it after the end. -/
theorem Ended.join (he : limiter.Ended) (nanos : ℕ) :
    limiter.join nanos = (true, { limiter with joinable := false }, []) := by
  unfold Limiter.join
  by_cases hjoinable : limiter.joinable = true
  · simp only [hjoinable, if_true, he.stopped]
  · rw [if_neg hjoinable, ← Bool.eq_false_iff.mpr hjoinable]

/-- Time passes without a word after the end. -/
theorem Ended.elapses (he : limiter.Ended) (h : Elapses limiter events last) :
    last.Ended ∧ events = []
      ∧ ∃ nanos, last.timed = (limiter.timed.perform (.wait nanos)).2 := by
  obtain ⟨hsilent, nanos, rfl⟩ := h.of_stopped he.stopped
  exact ⟨⟨he.enabled, he.stopped, he.requested⟩, hsilent, nanos, rfl⟩

/-- Whatever happens after the end is one call of the registry, with the same
answer, and nothing is reported. -/
theorem Ended.perform (he : limiter.Ended) (action : Action) :
    (limiter.perform action).2.1.Ended ∧ (limiter.perform action).2.2 = []
      ∧ ∃ call : Call, call.demand? = action.demand?
        ∧ (limiter.timed.perform call).1 = (limiter.perform action).1.plain
        ∧ (limiter.timed.perform call).2
          = (limiter.perform action).2.1.timed := by
  cases action with
  | request client =>
      have hasked : limiter.perform (.request client)
          = (.answered (limiter.registry.request limiter.now client).1,
            { limiter with
              registry := (limiter.registry.request limiter.now client).2 },
            []) := by
        simp [Limiter.perform, request, he.enabled]
      rw [hasked]
      exact ⟨⟨he.enabled, he.stopped, he.requested⟩, rfl,
        .request client, rfl, rfl, rfl⟩
  | evict =>
      have hswept : limiter.perform .evict
          = (.removed (limiter.registry.sweepCount limiter.now),
            { limiter with registry := limiter.registry.sweep limiter.now },
            []) := by
        simp [Limiter.perform, evict, he.enabled]
      rw [hswept]
      exact ⟨⟨he.enabled, he.stopped, he.requested⟩, rfl, .sweep, rfl, rfl, rfl⟩
  | advance nanos =>
      obtain ⟨hlast, hsilent, span, htimed⟩ :=
        he.elapses (elapses_advance limiter nanos)
      exact ⟨hlast, hsilent, .wait span, rfl, rfl, htimed.symm⟩
  | sleep nanos =>
      obtain ⟨hlast, hsilent, span, htimed⟩ :=
        he.elapses (elapses_sleep limiter nanos)
      exact ⟨hlast, hsilent, .wait span, rfl, rfl, htimed.symm⟩
  | shutdown =>
      have hsame : limiter.perform .shutdown = (.done, limiter, []) := by
        rw [← he.shutdown]
        rfl
      rw [hsame]
      exact ⟨he, rfl, .wait 0, rfl, rfl, rfl⟩
  | join nanos =>
      have hjoined : limiter.perform (.join nanos)
          = (.joined true, { limiter with joinable := false }, []) := by
        rw [Limiter.perform, he.join]
      rw [hjoined]
      exact ⟨⟨he.enabled, he.stopped, he.requested⟩, rfl,
        .wait 0, rfl, rfl, rfl⟩
  | release =>
      have hgone : limiter.perform .release
          = (.done, { limiter with stopRequested := true, released := true },
            []) := by
        rw [Limiter.perform, release, stopSweeper_of_stopped]
        exact he.stopped
      rw [hgone]
      exact ⟨⟨he.enabled, he.stopped, rfl⟩, rfl, .wait 0, rfl, rfl, rfl⟩

/-- After the end a limiter is a registry on a clock. -/
theorem Ended.run (he : limiter.Ended) (more : List Action) :
    (limiter.run more).2.1.Ended ∧ (limiter.run more).2.2 = []
      ∧ ∃ calls : List Call, calls.map Call.demand? = more.map Action.demand?
        ∧ (limiter.timed.run calls).1 = (limiter.run more).1.map Outcome.plain
        ∧ (limiter.timed.run calls).2 = (limiter.run more).2.1.timed := by
  induction more generalizing limiter with
  | nil => exact ⟨he, rfl, [], rfl, rfl, rfl⟩
  | cons action more ih =>
      obtain ⟨hnext, hsilent, call, hdemand, houtcome, htimed⟩ :=
        he.perform action
      obtain ⟨hlast, hquiet, calls, hdemands, houtcomes, hlater⟩ := ih hnext
      rw [← htimed] at houtcomes hlater
      refine ⟨hlast, ?_, call :: calls, ?_, ?_, hlater⟩
      · simp only [Limiter.run, hsilent, hquiet, List.append_nil]
      · simp only [List.map_cons, hdemand, hdemands]
      · simp only [Limiter.run, Timed.run, List.map_cons, houtcome, houtcomes]

/-- Who asks for no sweep gets none. -/
theorem sweep_not_mem {calls : List Call} {more : List Action}
    (hdemands : calls.map Call.demand? = more.map Action.demand?)
    (hevict : .evict ∉ more) : .sweep ∉ calls := by
  intro hmem
  have hdemand := List.mem_map_of_mem (f := Call.demand?) hmem
  rw [hdemands] at hdemand
  obtain ⟨action, hmore, hsweep⟩ := List.mem_map.mp hdemand
  cases action with
  | evict => exact hevict hmore
  | request | advance | sleep | shutdown | join | release => cases hsweep

/-- Nobody is forgotten after the end, unless it is asked for. -/
theorem Ended.contains_run (he : limiter.Ended) {more : List Action}
    (hevict : .evict ∉ more) {client : String}
    (hcontains : limiter.registry.contains client = true) :
    (limiter.run more).2.1.registry.contains client = true := by
  obtain ⟨-, -, calls, hdemands, -, htimed⟩ := he.run more
  have hbefore : limiter.timed.registry.contains client = true := hcontains
  have hkept := Registry.contains_run_of_unswept (sweep_not_mem hdemands hevict)
    hbefore
  rw [htimed] at hkept
  exact hkept

-- =============================================================== a run

/-- A run of a running sweeper: sweeps up to the first action that ends it,
and its farewell. -/
theorem Running.log_run (hr : limiter.Running) (actions : List Action) :
    (limiter.run actions).2.2
        = (limiter.run (actions.takeWhile fun action => !action.ends)).2.2
          ++ farewell actions
      ∧ (∀ event
        ∈ (limiter.run (actions.takeWhile fun action => !action.ends)).2.2,
        event.isSwept = true)
      ∧ (if actions.any Action.ends then (limiter.run actions).2.1.Ended
        else (limiter.run actions).2.1.Running) := by
  induction actions generalizing limiter with
  | nil => exact ⟨rfl, by simp [run], hr⟩
  | cons action actions ih =>
      cases hends : action.ends with
      | true =>
          obtain ⟨hended, -, -, hfarewell⟩ := hr.perform_of_ends hends
          obtain ⟨hlast, hquiet, -⟩ := hended.run actions
          simp only [run, List.takeWhile_cons, farewell, List.find?_cons,
            List.any_cons, hends, hfarewell, hquiet]
          simp [run, hlast]
      | false =>
          obtain ⟨hnext, hswept⟩ := hr.perform hends
          obtain ⟨hlog, hsweeps, hphase⟩ := ih hnext
          simp only [run, List.takeWhile_cons, farewell, List.find?_cons,
            List.any_cons, hends, Bool.not_false, Bool.false_or, if_true]
          refine ⟨?_, ?_, hphase⟩
          · rw [hlog, List.append_assoc]
            rfl
          · intro event hmem
            rcases List.mem_append.mp hmem with hmem | hmem
            · exact hswept event hmem
            · exact hsweeps event hmem

/-- A run keeps the clients distinct. -/
theorem distinct_run (henabled : limiter.enabled = true)
    (hdistinct : limiter.registry.clients.Nodup) (actions : List Action) :
    (limiter.run actions).2.1.registry.clients.Nodup := by
  obtain ⟨calls, hmirrors⟩ := mirrors_run henabled actions
  have hlater : (limiter.timed.run calls).2.registry.clients.Nodup := by
    refine Registry.run_induction (motive := fun state =>
      state.registry.clients.Nodup) ?_ calls hdistinct
    intro state call hstate
    cases call with
    | request client =>
        exact Registry.nodup_clients_request state.now client hstate
    | sweep => exact Registry.nodup_clients_sweep state.now hstate
    | wait nanos => exact hstate
  rw [← hmirrors.timed_eq] at hlater
  exact hlater

/-- Running or ended, what an action reports of sweeps is what they were. -/
theorem reported_perform (hphase : limiter.Running ∨ limiter.Ended)
    (hdistinct : limiter.registry.clients.Nodup)
    (hdemand : action.demand? = none) :
    Reported limiter (limiter.perform action).2.2
      (limiter.perform action).2.1 := by
  rcases hphase with hr | he
  · cases hends : action.ends with
    | true =>
        obtain ⟨-, hsame, hnow, hfarewell⟩ := hr.perform_of_ends hends
        apply reported_of_unswept hnow.ge hsame
        rw [hfarewell]
        cases action <;> rfl
    | false =>
        obtain ⟨joinable, hpassage⟩ := hr.elapses hdemand hends
        exact hpassage.reported hdistinct
  · obtain ⟨-, hsilent, call, hclock, -, htimed⟩ := he.perform action
    rw [hdemand] at hclock
    cases call with
    | wait nanos =>
        have hnow : limiter.now + nanos = (limiter.perform action).2.1.now :=
          congrArg Timed.now htimed
        have hsame := (congrArg Timed.registry htimed).symm
        apply reported_of_unswept _ hsame
        · rw [hsilent]
          rfl
        · omega
    | request | sweep => cases hclock

-- ======================================================== the theorem

/-- The life of the sweeper of an enabled limiter. The log starts with the
report of the limiter; then there are sweeps only, up to the first shutdown
or release, and its farewell is the last word. Each report of a sweep, of
any action that follows, has the number of clients removed and of those
left. After the end another shutdown changes nothing, and whatever comes is
a run of the bare registry, which forgets nobody unless it is asked to. -/
theorem log_of_lifecycle (henabled : limits.enabled = true)
    (hword : limits.evictionInterval.nanos < wordBound)
    (actions : List Action) :
    let first := (start limits).1
    let later := (first.run actions).2.1
    let early := (first.run (actions.takeWhile fun action => !action.ends)).2.2
    ((start limits).2 ++ (first.run actions).2.2
          = .limiterStarted true limits.rps limits.burst.toNat
            limits.evictionInterval.milliWord :: early ++ farewell actions
        ∧ ∀ event ∈ early, event.isSwept = true)
      ∧ (∀ action, action.demand? ≠ none → (later.perform action).2.2 = [])
      ∧ (∀ action, action.demand? = none →
        Reported later (later.perform action).2.2 (later.perform action).2.1)
      ∧ (actions.any Action.ends = true → later.shutdown = (later, [])
        ∧ ∀ more, (later.run more).2.2 = []
          ∧ (∃ calls : List Call,
            calls.map Call.demand? = more.map Action.demand?
              ∧ (later.timed.run calls).1
                = (later.run more).1.map Outcome.plain
              ∧ (later.timed.run calls).2 = (later.run more).2.1.timed)
          ∧ (.evict ∉ more → ∀ client, later.registry.contains client = true →
            (later.run more).2.1.registry.contains client = true)) := by
  intro first later early
  have hr := running_start henabled hword
  obtain ⟨hlog, hswept, hphase⟩ := hr.log_run actions
  have hboth : later.Running ∨ later.Ended := by
    split at hphase
    · exact .inr hphase
    · exact .inl hphase
  refine ⟨⟨?_, hswept⟩, fun action hdemand => ?_, fun action hdemand => ?_,
    fun hends => ?_⟩
  · have hreport : (start limits).2 = [.limiterStarted true limits.rps
        limits.burst.toNat limits.evictionInterval.milliWord] := by
      rw [← henabled]
      rfl
    rw [hlog, hreport]
    rfl
  · have hon : later.enabled = true := hboth.elim Running.enabled Ended.enabled
    obtain ⟨registry, hmet⟩ := perform_demand hon hdemand
    rw [hmet]
  · have hnobody : first.registry.clients.Nodup := List.nodup_nil
    exact reported_perform hboth (distinct_run henabled hnobody actions) hdemand
  · rw [if_pos hends] at hphase
    refine ⟨hphase.shutdown, fun more => ?_⟩
    obtain ⟨-, hquiet, hbare⟩ := hphase.run more
    exact ⟨hquiet, hbare, fun hevict client => hphase.contains_run hevict⟩

/-- A client spends both of its tokens, which are back after two sweeps. Of
two shutdowns and a release, the first is the end. -/
theorem log_of_lifecycle_of_early_shutdown :
    let limits : Settings.RateLimit := ⟨true, 1, 2, .ofNanos 1000000000⟩
    let actions : List Action := [.request "a", .request "a", .sleep 2000000000,
      .shutdown, .advance 5000000000, .request "b", .shutdown, .release]
    let later := ((start limits).1.run actions).2.1
    limits.enabled = true ∧ limits.evictionInterval.nanos < wordBound
      ∧ (start limits).2 ++ ((start limits).1.run actions).2.2
        = [.limiterStarted true 1 2 1000, .swept 0 1, .swept 1 0,
          .shutdownRequested, .sweeperStopped]
      ∧ ((later.run [.advance 9000000000]).2.1.registry.contains "b" = true
        ∧ later.shutdown = (later, [])) := by
  intro limits actions later
  have henabled : limits.enabled = true := rfl
  have hword : limits.evictionInterval.nanos < wordBound := by decide
  obtain ⟨⟨hlog, -⟩, -, -, hend⟩ := log_of_lifecycle henabled hword actions
  obtain ⟨hsame, hmore⟩ := hend (by decide)
  have hkept := (hmore [.advance 9000000000]).2.2 (by decide) "b"
  refine ⟨henabled, hword, hlog.trans ?_, hkept ?_, hsame⟩
  · decide +kernel
  · decide +kernel

end Limiter

end Turnstile
