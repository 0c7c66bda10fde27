/-
Who may wait for the sweeper's end, and what the waiting tells.

The first to wait takes the sweeper along. If its end comes, the waiting is
over; if the waiting is given up before, the sweeper goes on, but there is
nothing left to wait for, and every later wait is over at once. So a limiter
whose sweeper is running can be waited for exactly if nobody has given up
before (`Running.joinable_run`), and a wait that comes to its end means the
end of the sweeper only then (`join_completes_iff`).

Chain (limiter): Lifecycle.lean below.
-/
import Mathlib
import Turnstile.Settings.Fault
import Turnstile.Proofs.Limiter.Lifecycle

namespace Turnstile.Limiter

variable {limits : Settings.RateLimit} {limiter last : Limiter}
  {events : List Event} {action : Action} {actions : List Action}

-- ======================================================= while it runs

theorem Running.join_eq_true_iff (hr : limiter.Running) (nanos : ℕ) :
    (limiter.join nanos).1 = true ↔ limiter.joinable = false := by
  obtain ⟨deadline, hwaiting⟩ := hr.waiting
  unfold join
  cases hjoinable : limiter.joinable with
  | true => simp [hwaiting]
  | false => simp

theorem Elapses.joinable (h : Elapses limiter events last) :
    last.joinable = limiter.joinable := by
  rw [h.frame]

/-- Only a wait that is given up takes the sweeper along. -/
theorem Running.joinable_perform (hr : limiter.Running)
    (hgoes : action.ends = false) :
    (limiter.perform action).2.1.joinable = true
      ↔ limiter.joinable = true
        ∧ (limiter.perform action).1 ≠ .joined false := by
  cases action with
  | request client => simp [Limiter.perform, request, hr.enabled]
  | evict => simp [Limiter.perform, evict, hr.enabled]
  | advance nanos =>
      simp [Limiter.perform, (elapses_advance limiter nanos).joinable]
  | sleep nanos =>
      simp [Limiter.perform, (elapses_sleep limiter nanos).joinable]
  | shutdown => cases hgoes
  | join nanos =>
      obtain ⟨deadline, hwaiting⟩ := hr.waiting
      have htaken := (elapses_join hwaiting nanos).joinable
      have hended := hr.join_eq_true_iff nanos
      simp only [Limiter.perform, htaken, ne_eq, Outcome.joined.injEq,
        Bool.not_eq_false, hended]
      simp
  | release => cases hgoes

theorem Running.joinable_run (hr : limiter.Running)
    (hgoes : ∀ action ∈ actions, action.ends = false) :
    (limiter.run actions).2.1.joinable = true
      ↔ limiter.joinable = true ∧ .joined false ∉ (limiter.run actions).1 := by
  induction actions generalizing limiter with
  | nil => simp [run]
  | cons action actions ih =>
      rw [List.forall_mem_cons] at hgoes
      obtain ⟨haction, hrest⟩ := hgoes
      have hnext := (hr.perform haction).1
      simp only [run, List.mem_cons, not_or]
      rw [ih hnext hrest, hr.joinable_perform haction, and_assoc, ne_comm]

-- ======================================================= after its end

theorem sweeperStopped_mem_farewell (hends : actions.any Action.ends = true) :
    .sweeperStopped ∈ farewell actions := by
  obtain ⟨action, hfirst⟩ := Option.isSome_iff_exists.mp (List.find?_isSome.mpr
    (List.any_eq_true.mp hends))
  have hfarewell : farewell actions = action.farewell := by
    rw [farewell, hfirst]
    rfl
  have hlast := List.find?_some hfirst
  rw [hfarewell]
  cases action with
  | shutdown => simp [Action.farewell]
  | release => simp [Action.farewell]
  | request | evict | advance | sleep | join => cases hlast

theorem farewell_of_goes (hgoes : ∀ action ∈ actions, action.ends = false) :
    farewell actions = [] := by
  have hnone : actions.find? Action.ends = none := by
    apply List.find?_eq_none.mpr
    intro action hmem
    simp [hgoes action hmem]
  rw [farewell, hnone]
  rfl

-- ======================================================== the theorem

/-- A wait comes to its end exactly if the sweeper has ended or an earlier
wait was given up. The sweeper has ended if that is in the log, and then
nothing is reported any more; otherwise it goes on. -/
theorem join_completes_iff (henabled : limits.enabled = true)
    (hword : limits.evictionInterval.nanos < wordBound) (actions : List Action)
    (nanos : ℕ) :
    let first := (start limits).1
    let later := (first.run actions).2.1
    let log := (start limits).2 ++ (first.run actions).2.2
    ((later.join nanos).1 = true
        ↔ .sweeperStopped ∈ log ∨ .joined false ∈ (first.run actions).1)
      ∧ (.sweeperStopped ∈ log → ∀ more, (later.run more).2.2 = [])
      ∧ (.sweeperStopped ∉ log →
        ∃ deadline, later.sweeper = .waiting deadline) := by
  intro first later log
  have hr := running_start henabled hword
  obtain ⟨hlog, hswept, hphase⟩ := hr.log_run actions
  cases hends : actions.any Action.ends with
  | true =>
      rw [if_pos hends] at hphase
      have hsaid : .sweeperStopped ∈ log := by
        apply List.mem_append_right
        rw [hlog]
        exact List.mem_append_right _ (sweeperStopped_mem_farewell hends)
      refine ⟨?_, fun _ more => (hphase.run more).2.1, fun hunsaid => ?_⟩
      · simp [later, first, hphase.join, hsaid]
      · exact absurd hsaid hunsaid
  | false =>
      rw [if_neg (ne_true_of_eq_false hends)] at hphase
      have hgoes : ∀ action ∈ actions, action.ends = false := by
        simpa using hends
      have hunsaid : .sweeperStopped ∉ log := by
        intro hmem
        rcases List.mem_append.mp hmem with hmem | hmem
        · cases hmem with
          | tail _ hmem => cases hmem
        · rw [hlog, farewell_of_goes hgoes, List.append_nil] at hmem
          exact absurd (hswept _ hmem) (by simp [Event.isSwept])
      have hjoinable := hr.joinable_run hgoes
      refine ⟨?_, fun hsaid => absurd hsaid hunsaid, fun _ => hphase.waiting⟩
      rw [hphase.join_eq_true_iff, ← Bool.not_eq_true, hjoinable]
      simp [hunsaid, start, henabled, first]

/-- Nobody gives up here: the wait ends after the sweeper. -/
theorem join_completes_iff_of_shutdown :
    let limits : Settings.RateLimit := ⟨true, 1, 2, .ofNanos 10000000000⟩
    let actions : List Action := [.sleep 10000000000, .shutdown]
    let later := ((start limits).1.run actions).2.1
    limits.enabled = true ∧ limits.evictionInterval.nanos < wordBound
      ∧ (later.join 1000000000).1 = true
      ∧ (later.run [.advance 20000000000]).2.2 = [] := by
  intro limits actions later
  have henabled : limits.enabled = true := rfl
  have hword : limits.evictionInterval.nanos < wordBound := by decide
  have hsaid : .sweeperStopped
      ∈ (start limits).2 ++ ((start limits).1.run actions).2.2 := by
    decide +kernel
  obtain ⟨hjoin, hquiet, -⟩ :=
    join_completes_iff henabled hword actions 1000000000
  exact ⟨henabled, hword, hjoin.mpr (.inl hsaid), hquiet hsaid _⟩

/-- The first wait is given up after a second. The next one is over at once,
although the sweeper has not ended: it makes its first sweep nine seconds
later. -/
theorem join_completes_early :
    let limits : Settings.RateLimit := ⟨true, 1, 2, .ofNanos 10000000000⟩
    let actions : List Action := [.join 1000000000, .join 1000000000]
    let first := (start limits).1
    let later := (first.run actions).2.1
    limits.fault? = none ∧ limits.evictionInterval.nanos < wordBound
      ∧ (first.run actions).1 = [.joined false, .joined true]
      ∧ .sweeperStopped ∉ (start limits).2 ++ (first.run actions).2.2
      ∧ (later.run [.sleep 10000000000]).2.2 = [.swept 0 0] := by
  decide +kernel

end Turnstile.Limiter
