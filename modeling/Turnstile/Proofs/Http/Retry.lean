/-
The promise of a denial.

A reply with the status of a denial tells a wait, in milliseconds in its
body and in seconds in a header field. Both are enough (`le_retryMillis_mul`,
`le_retrySeconds_mul`), because down to a rate of 10^-6 the wait is short.
Who comes back after either of them, having asked for nothing since and
without a sweep having come between, gets no such reply: `served_after_retry`.

What a service reaches is a sound registry under the quota of its settings
(`Limiter.Sound`), so all that is left to do is to read a stay away, in which
requests of others and waits are all that happens, as calls of that registry.

Chain (service): Http/Limited.lean, Http/Hints.lean and Registry/Patience.lean
below; a top statement of the library.
-/
import Mathlib
import Turnstile.Proofs.Http.Hints
import Turnstile.Proofs.Http.Limited
import Turnstile.Proofs.Registry.Patience
import Turnstile.Proofs.Settings.Usable

namespace Turnstile

open Registry (Timed)

namespace Http.Router

variable {router : Router} {quota : Quota} {client : String} {actions : List Action}

/-- The client asks for nothing, and nothing is swept. -/
structure Quiet (client : String) (router : Router) (actions : List Action) : Prop where
  unasked : ∀ action ∈ actions, action.toLimiter? ≠ some (.request client)
  undemanded : ∀ action ∈ actions, action.toLimiter? ≠ some .evict
  unswept : ∀ event ∈ (router.run actions).2.2, event.isSwept = false

theorem Quiet.calls (hquiet : Quiet client router actions)
    (henabled : router.limiter.enabled = true) :
    ∃ calls, (router.run actions).2.1.limiter.timed
        = (router.limiter.timed.run calls).2
      ∧ .request client ∉ calls ∧ .sweep ∉ calls := by
  obtain ⟨hlimiter, hswept⟩ := run_limiter router actions
  obtain ⟨calls, htimed, -, hrequests, hsweeps⟩ :=
    Limiter.mirrors_run henabled (actions.filterMap Action.toLimiter?)
  have hunasked : .request client ∉ actions.filterMap Action.toLimiter? := by
    intro hmem
    obtain ⟨action, hmem, hasks⟩ := List.mem_filterMap.mp hmem
    exact hquiet.unasked action hmem hasks
  have hundemanded : .evict ∉ actions.filterMap Action.toLimiter? := by
    intro hmem
    obtain ⟨action, hmem, hevicts⟩ := List.mem_filterMap.mp hmem
    exact hquiet.undemanded action hmem hevicts
  have hunswept : (router.run actions).2.2.countP Event.isSwept = 0 := by
    rw [List.countP_eq_zero]
    intro event hmem
    exact ne_true_of_eq_false (hquiet.unswept event hmem)
  refine ⟨calls, hlimiter ▸ htimed, ?_, ?_⟩
  · rw [← List.count_eq_zero, hrequests, List.count_eq_zero]
    exact hunasked
  · rw [← List.count_eq_zero, hsweeps, ← hswept, hunswept, List.count_eq_zero.mpr hundemanded]

theorem sound_run (hquota : quota.Usable) (hs : router.limiter.Sound quota)
    (actions : List Action) : (router.run actions).2.1.limiter.Sound quota := by
  rw [(run_limiter router actions).1]
  exact hs.run hquota _

/-- Who was quiet for the interval of the rate is not denied. -/
theorem status_of_quiet (hquota : quota.Usable) (hrate : Quota.slowest ≤ quota.rate)
    (hs : router.limiter.Sound quota) (hquiet : Quiet client router actions)
    (hwait : router.limiter.now + quota.retryAfter.nanos
      ≤ (router.run actions).2.1.limiter.now)
    {again : Request} (hsame : again.client = client) (fresh : String) :
    ((router.run actions).2.1.handle fresh again).1.status ≠ 429 := by
  have hlast := sound_run hquota hs actions
  obtain ⟨calls, htimed, hasks, hsweeps⟩ := hquiet.calls hs.enabled
  apply handle_status_of_not_denied
  intro hlimited
  rw [hlast.request_fst, hsame]
  obtain ⟨-, rfl, hsound⟩ := hs
  have hallowed := hsound.request_allowed hquota hrate hasks hsweeps
    (by rw [← htimed]; exact hwait)
  rw [← htimed] at hallowed
  exact hallowed

-- ============================================================ the promise

/-- A reply with the status of a denial tells a wait in milliseconds and in
seconds. Let anything happen at its instant; if after that the client asks for
nothing and nothing is swept until either wait is over, its next request is
not denied. -/
theorem served_after_retry {limits : Settings.RateLimit} (hvalid : limits.fault? = none)
    (henabled : limits.enabled = true) (hrate : Quota.slowest ≤ limits.rps)
    (crossOrigin : Settings.CrossOrigin) (early : List Action) (fresh : String)
    (request : Request) :
    let router := ((start limits crossOrigin).1.run early).2.1
    let reply := (router.handle fresh request).1
    let denied := (router.handle fresh request).2.1
    let wait := limits.quota.retryAfter
    let instant := router.limiter.now
    reply.status = 429 →
    reply.Denies request.method wait
      ∧ ∀ (same later : List Action) (fresh' : String) (again : Request),
        let next := (denied.run same).2.1
        let last := (next.run later).2.1
        next.limiter.now = instant →
        Quiet request.client next later →
        again.client = request.client →
        instant + retryMillis wait * nanosPerMilli ≤ last.limiter.now
          ∨ instant + retrySeconds wait * nanosPerSecond ≤ last.limiter.now →
        (last.handle fresh' again).1.status ≠ 429 := by
  obtain ⟨hquota, -⟩ := (Settings.RateLimit.fault?_eq_none_iff henabled).mp hvalid
  have hs : ((start limits crossOrigin).1.run early).2.1.limiter.Sound limits.quota :=
    sound_run hquota (Limiter.sound_start henabled) early
  obtain ⟨hshort, -⟩ := Quota.one_le_credit_interval hquota hrate
  intro router reply denied wait instant hstatus
  obtain ⟨hlimited, told, hdenied⟩ := handle_status_eq_iff.mp hstatus
  have htold : told = wait := by
    rw [hs.request_fst] at hdenied
    rw [Registry.wait_of_denied hdenied, hs.quota_eq]
  refine ⟨htold ▸ handle_of_denied hlimited hdenied, ?_⟩
  intro same later fresh' again next last hnow hquiet hagain hafter
  have hnext : next.limiter.Sound limits.quota :=
    sound_run hquota hs (.serve fresh request :: same)
  refine status_of_quiet hquota hrate hnext hquiet ?_ hagain fresh'
  show next.limiter.now + wait.nanos ≤ last.limiter.now
  rw [hnow]
  have hmillis := le_retryMillis_mul (hshort.trans (by decide))
  have hseconds := le_retrySeconds_mul (hshort.trans (by decide))
  rcases hafter with hafter | hafter
  · exact (Nat.add_le_add_left hmillis _).trans hafter
  · exact (Nat.add_le_add_left hseconds _).trans hafter

/-- At three requests per second the wait is a third of a second, rounded up
to 334 milliseconds. A client that was denied and has asked in vain once more
at once is served after these. -/
theorem served_after_retry_of_three_per_second :
    let limits : Settings.RateLimit := ⟨true, 3, 1, .ofNanos 60000000000⟩
    let request : Request :=
      ⟨"GET", .ofText "/api/v1/health", [.ofText "x-real-ip" "10.0.0.1"], none⟩
    let router := ((start limits .default).1.run [.serve "1" request]).2.1
    let denied := (router.handle "2" request).2.1
    let next := (denied.run [.serve "3" request]).2.1
    let last := (next.run [.act (.advance 334000000)]).2.1
    limits.fault? = none ∧ Quota.slowest ≤ limits.rps
      ∧ (router.handle "2" request).1.status = 429
      ∧ retryMillis limits.quota.retryAfter = 334
      ∧ (denied.handle "3" request).1.status = 429
      ∧ Quiet request.client next [.act (.advance 334000000)]
      ∧ (last.handle "4" request).1.status ≠ 429 := by
  intro limits request router denied next last
  have hvalid : limits.fault? = none := by decide +kernel
  have hrate : Quota.slowest ≤ limits.rps := by decide +kernel
  have hstatus : (router.handle "2" request).1.status = 429 := by decide +kernel
  have hmillis : retryMillis limits.quota.retryAfter = 334 := by decide +kernel
  have hagain : (denied.handle "3" request).1.status = 429 := by decide +kernel
  have hquiet : Quiet request.client next [.act (.advance 334000000)] := by
    refine ⟨?_, ?_, ?_⟩
    · simp [Action.toLimiter?]
    · simp [Action.toLimiter?]
    · decide +kernel
  have hnow : next.limiter.now = router.limiter.now := by decide +kernel
  have hafter : router.limiter.now + retryMillis limits.quota.retryAfter * nanosPerMilli
      ≤ last.limiter.now := by decide +kernel
  refine ⟨hvalid, hrate, hstatus, hmillis, hagain, hquiet, ?_⟩
  subst last next denied router
  obtain ⟨-, hserved⟩ := served_after_retry hvalid rfl hrate .default [.serve "1" request]
    "2" request hstatus
  exact hserved [.serve "3" request] _ "4" request hnow hquiet rfl (.inl hafter)

end Http.Router

end Turnstile
