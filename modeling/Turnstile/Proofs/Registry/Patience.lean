/-
Who waits for as long as a denial says is admitted.

Between two requests of a client nothing but sweeps touches its bucket
(`find?_run_of_untouched`). So a client that stays away while nothing is
swept meets the bucket that it left, or a new one, and nobody's bucket is
credited beyond the instant from which the client waits. After the interval
of the rate the bucket has a token (Bucket/Interval.lean), and the request
is admitted: `Timed.Sound.request_allowed`.

The wait need not begin with a denial: it may begin at any instant that a
run reaches.

Chain (registry): Bucket/Interval.lean and Registry/Invariant.lean below;
Registry/Return.lean and the promise of the service (Http/Retry.lean) above.
-/
import Mathlib
import Turnstile.Proofs.Bucket.Interval
import Turnstile.Proofs.Registry.Invariant

namespace Turnstile.Registry

variable {state : Timed} {client : String} {calls : List Call} {registry : Registry}
  {now : ℕ} {wait : Duration}

theorem find?_run_of_untouched (hasks : .request client ∉ calls)
    (hsweeps : .sweep ∉ calls) (state : Timed) :
    (state.run calls).2.registry.find? client = state.registry.find? client := by
  induction calls generalizing state with
  | nil => rfl
  | cons call rest ih =>
      simp only [List.mem_cons, not_or] at hasks hsweeps
      rw [run_cons, ih hasks.2 hsweeps.2]
      cases call with
      | request other =>
          have hother : client ≠ other := by
            intro hsame
            exact hasks.1 (congrArg Call.request hsame)
          exact (find?_request ..).trans (if_neg hother)
      | sweep => exact absurd rfl hsweeps.1
      | wait nanos => rfl

/-- Every denial tells the same wait. -/
theorem wait_of_denied (hdenied : (registry.request now client).1 = .denied wait) :
    wait = registry.quota.retryAfter := by
  unfold request at hdenied
  simp only at hdenied
  split at hdenied
  · cases hdenied
  · exact (Admission.denied.inj hdenied).symm

/-- A request is admitted exactly if the refilled bucket has a token. -/
theorem request_allowed_iff : (registry.request now client).1 = .allowed
    ↔ 1 ≤ ((registry.bucketOf now client).refill registry.quota now).tokens := by
  rcases Bucket.draw_cases registry.quota now (registry.bucketOf now client)
    with ⟨hone, hdraw⟩ | ⟨hnone, hdraw⟩
  · simp [request, hdraw, hone]
  · simp [request, hdraw, hnone]

/-- A denial refills the bucket of its client and touches no other. -/
theorem find?_request_of_denied (hdenied : (registry.request now client).1 ≠ .allowed)
    (other : String) :
    (registry.request now client).2.find? other
      = if other = client then
          some ((registry.bucketOf now client).refill registry.quota now)
        else registry.find? other := by
  rcases Bucket.draw_cases registry.quota now (registry.bucketOf now client)
    with ⟨hone, -⟩ | ⟨-, hdraw⟩
  · exact absurd (request_allowed_iff.mpr hone) hdenied
  · rw [find?_request, hdraw]

/-- A client that stays away for the interval of the rate, while nothing is
swept, is admitted. -/
theorem Timed.Sound.request_allowed (hquota : state.registry.quota.Usable)
    (hrate : Quota.slowest ≤ state.registry.quota.rate) (hs : state.Sound)
    (hasks : .request client ∉ calls) (hsweeps : .sweep ∉ calls)
    (hwait : state.now + state.registry.quota.retryAfter.nanos
      ≤ (state.run calls).2.now) :
    ((state.run calls).2.registry.request (state.run calls).2.now client).1
      = .allowed := by
  obtain ⟨-, hsame⟩ := hs.run hquota calls
  have hview := find?_run_of_untouched hasks hsweeps state
  generalize (state.run calls).2 = later at *
  rw [request_allowed_iff, hsame]
  unfold Registry.bucketOf
  rw [hview, hsame]
  cases hfind : state.registry.find? client with
  | none => exact Bucket.one_le_refill_full hquota later.now
  | some bucket =>
      have hpast := hs.credited client bucket hfind
      apply (hs.sound client bucket hfind).one_le_refill_of_interval hquota hrate
      omega

end Turnstile.Registry
