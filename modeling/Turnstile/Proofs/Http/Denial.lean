/-
What is logged of a denial, and what is sent.

A denied request is reported twice, by the limiter's layer and by the log around
it, and is answered once. Both layers find out by themselves whose request it is.
They agree, although the inner one sees the request with the identifier that the
log has given it (`Request.tagged`), because an identifier is none of the fields
that tell a client (`Request.client_tagged`). The bucket of that client, and no
other, is refilled and found wanting (`Registry.find?_request_of_denied`).

The two do not agree about the wait. It is sent rounded up and logged rounded down
(`milliWord_eq_retryMillis_iff`), so what is logged is a millisecond less wherever the
wait is not whole: at three requests per second 333 for 334 (`denial_logged_short`).
The longest wait is cut to the same word both times, the log's by chance: what is
left of it in 64 bits happens to be the largest word.

Chain (service): Http/Charging.lean, Http/Hints.lean and Registry/Patience.lean
below; a top statement of the library.
-/
import Mathlib
import Turnstile.Proofs.Http.Charging
import Turnstile.Proofs.Http.Hints
import Turnstile.Proofs.Registry.Patience

namespace Turnstile.Http

-- ============================================================ down and up

variable {wait : Duration}

theorem retryMillis_of_le (hshort : wait.nanos ≤ wordBound) :
    retryMillis wait = unitsCovering nanosPerMilli wait.nanos := by
  refine Nat.min_eq_left ((unitsCovering_le_iff (by decide)).mpr (hshort.trans ?_))
  decide

/-- What is logged is at most a millisecond less than what is sent. -/
theorem retryMillis_bounds (hwait : wait = .longest ∨ wait.nanos ≤ wordBound) :
    wait.milliWord ≤ retryMillis wait ∧ retryMillis wait ≤ wait.milliWord + 1 := by
  rcases hwait with rfl | hshort
  · decide
  · rw [Duration.milliWord_of_le hshort, retryMillis_of_le hshort]
    unfold unitsCovering
    omega

/-- It is the same for whole milliseconds, and for the longest wait. -/
theorem milliWord_eq_retryMillis_iff (hwait : wait = .longest ∨ wait.nanos ≤ wordBound) :
    wait.milliWord = retryMillis wait ↔ wait = .longest ∨ nanosPerMilli ∣ wait.nanos := by
  by_cases hlongest : wait = .longest
  · subst hlongest
    exact iff_of_true (by decide) (.inl rfl)
  · have hshort := hwait.resolve_left hlongest
    rw [Duration.milliWord_of_le hshort, retryMillis_of_le hshort, or_iff_right hlongest,
      Nat.dvd_iff_mod_eq_zero]
    unfold unitsCovering
    omega

-- ============================================================ two layers

variable {request other : Request} {fresh : String}

/-- The request as the log passes it on: with its identifier. -/
def Request.tagged (fresh : String) (request : Request) : Request :=
  match Header.first? "x-request-id" request.headers with
  | some _ => request
  | none => { request with headers := request.headers ++ [.ofText "x-request-id" fresh] }

/-- An identifier tells nothing of the client. -/
theorem Request.client_tagged : (request.tagged fresh).client = request.client := by
  unfold Request.tagged
  split
  · rfl
  · have hforwarded : Header.lowered "x-request-id" ≠ Header.lowered "x-forwarded-for" := by
      decide
    have hreal : Header.lowered "x-request-id" ≠ Header.lowered "x-real-ip" := by
      decide
    simp only [Request.client, clientIdentity, identityCandidates, fieldText?,
      Header.first?_snoc_other hforwarded, Header.first?_snoc_other hreal]

namespace Router

variable {router : Router} {limiter : Limiter}

/-- The inner layers look at the client, the method and the path. -/
theorem answer_of_same (hclient : request.client = other.client)
    (hmethod : request.method = other.method) (huri : request.uri = other.uri) :
    answer limiter request = answer limiter other := by
  simp only [answer, answerOn, hclient, hmethod, huri]

theorem answer_tagged : answer limiter (request.tagged fresh) = answer limiter request := by
  refine answer_of_same Request.client_tagged ?_ ?_
  · unfold Request.tagged
    split <;> rfl
  · unfold Request.tagged
    split <;> rfl

-- ============================================================ both reports

/-- What a denied request leaves in the log. -/
theorem handle_events_of_denied {route : Route}
    (hlogged : request.method ≠ "OPTIONS")
    (hroute : Route.ofPath? request.uri.path = some route)
    (hdenied : (router.limiter.request request.client).1 = .denied wait) :
    (router.handle fresh request).2.2
      = [.requestDenied request.client request.method route.innerPath wait.milliWord,
        handled (requestId fresh request) request 429] := by
  have hstatus := (answer_of_denied hroute hdenied).status
  rw [handle_of_logged hlogged]
  show (answer router.limiter request).2.2 ++ [handled _ request _] = _
  rw [hstatus, answer_of_route hroute, answerOn_of_denied hdenied]
  rfl

/-- Any reply with the status of a denial. Two events are logged, first of the denial
and then of the request, and both name the client whose bucket was refilled and found
wanting; no other bucket is touched. The inner layer, which sees the request tagged,
finds the same client and answers the same. The wait is that of the rate in both
places. It is logged rounded down and sent rounded up, which is the same exactly if it
is the longest or a whole number of milliseconds. -/
theorem denial_is_logged (router : Router) (fresh : String) (request : Request)
    (hstatus : (router.handle fresh request).1.status = 429) :
    let reply := (router.handle fresh request).1
    let next := (router.handle fresh request).2.1.limiter
    let events := (router.handle fresh request).2.2
    let limiter := router.limiter
    let client := clientIdentity request.headers request.peer?
    let wait := limiter.registry.quota.retryAfter
    (∃ route, Route.ofPath? request.uri.path = some route
        ∧ events = [.requestDenied client request.method route.innerPath wait.milliWord,
          .requestHandled ((textOf? (requestId fresh request)).getD "-") request.method
            request.uri.text 429 client])
      ∧ reply.Denies request.method wait
      ∧ (∀ other, next.registry.find? other = if other = client then
          some ((limiter.registry.bucketOf limiter.now client).refill
            limiter.registry.quota limiter.now)
        else limiter.registry.find? other)
      ∧ (request.tagged fresh).client = client
      ∧ answer limiter (request.tagged fresh) = answer limiter request
      ∧ wait.milliWord ≤ retryMillis wait ∧ retryMillis wait ≤ wait.milliWord + 1
      ∧ (wait.milliWord = retryMillis wait
        ↔ wait = .longest ∨ nanosPerMilli ∣ wait.nanos) := by
  intro reply next events limiter client wait
  obtain ⟨hcharges, told, hdenied⟩ := status_eq_denial_iff.mp hstatus
  obtain ⟨henabled, hlimited⟩ := (charges_iff router request).mp hcharges
  obtain ⟨hlogged, route, hroute⟩ := request.exists_route_of_isLimited hlimited
  have hasked : limiter.request client
      = ((limiter.registry.request limiter.now client).1,
        { limiter with registry := (limiter.registry.request limiter.now client).2 }) := by
    unfold Limiter.request
    rw [if_pos henabled]
  have hrefused : (limiter.registry.request limiter.now client).1 = .denied told :=
    (congrArg Prod.fst hasked).symm.trans hdenied
  -- every denial of a registry tells the same wait
  obtain rfl : told = wait := Registry.wait_of_denied hrefused
  have hwait : wait = .longest ∨ wait.nanos ≤ wordBound :=
    or_iff_not_imp_left.mpr Quota.nanos_le_of_ne_longest
  obtain ⟨hless, hmore⟩ := retryMillis_bounds hwait
  refine ⟨⟨route, hroute, handle_events_of_denied hlogged hroute hdenied⟩,
    handle_of_denied hlimited hdenied, fun other => ?_, Request.client_tagged,
    answer_tagged, hless, hmore, milliWord_eq_retryMillis_iff hwait⟩
  show (router.handle fresh request).2.1.limiter.registry.find? other = _
  rw [handle_limiter_of_charges.1 hcharges]
  show (limiter.request client).2.registry.find? other = _
  rw [hasked]
  exact Registry.find?_request_of_denied (by rw [hrefused]; exact Admission.noConfusion) other

/-- At four requests per second the wait is 250 milliseconds, in the log and in the
reply, and both events name the first entry of the list that the request brings. -/
theorem denial_is_logged_of_four_per_second :
    let limits : Settings.RateLimit := ⟨true, 4, 1, .ofNanos 60000000000⟩
    let request : Request :=
      ⟨"GET", .ofText "/api/v1/health",
        [.ofText "X-Forwarded-For" " 10.0.0.1 , 172.16.0.1"], none⟩
    let router := ((start limits .default).1.run [.serve "1" request]).2.1
    let reply := (router.handle "2" request).1
    reply.status = 429 ∧ reply.body = Reply.denialBody 250
      ∧ (router.handle "2" request).2.2
        = [.requestDenied "10.0.0.1" "GET" "/health" 250,
          .requestHandled "2" "GET" "/api/v1/health" 429 "10.0.0.1"] := by
  intro limits request router reply
  have hstatus : reply.status = 429 := by decide +kernel
  have hclient : clientIdentity request.headers request.peer? = "10.0.0.1" := by
    decide +kernel
  have hmillis : retryMillis router.limiter.registry.quota.retryAfter = 250 := by
    decide +kernel
  have hwhole : nanosPerMilli ∣ router.limiter.registry.quota.retryAfter.nanos := by
    decide +kernel
  have hid : (textOf? (requestId "2" request)).getD "-" = "2" := by decide +kernel
  have huri : request.uri.text = "/api/v1/health" := by decide +kernel
  obtain ⟨⟨route, hroute, hevents⟩, hdenies, -, -, -, -, -, hsame⟩ :=
    denial_is_logged router "2" request hstatus
  have hhealth : Route.ofPath? request.uri.path = some .health := by decide +kernel
  obtain rfl : Route.health = route := Option.some.inj (hhealth.symm.trans hroute)
  rw [hsame.mpr (.inr hwhole), hmillis, hclient, hid, huri] at hevents
  refine ⟨hstatus, ?_, hevents⟩
  rw [hdenies.body, hmillis]
  rfl

/-- At three requests per second the wait is a third of a second: 334 milliseconds are
sent and 333 are logged. -/
theorem denial_logged_short :
    let limits : Settings.RateLimit := ⟨true, 3, 1, .ofNanos 60000000000⟩
    let request : Request := ⟨"GET", .ofText "/api/v1/health", [], none⟩
    let router := ((start limits .default).1.run [.serve "1" request]).2.1
    let reply := (router.handle "2" request).1
    reply.status = 429
      ∧ reply.body = Reply.denialBody 334 ∧ Reply.denialBody 334 ≠ Reply.denialBody 333
      ∧ (router.handle "2" request).2.2
        = [.requestDenied "" "GET" "/health" 333,
          .requestHandled "2" "GET" "/api/v1/health" 429 ""] := by
  intro limits request router reply
  refine ⟨?_, ?_, ?_, ?_⟩ <;> decide +kernel

end Router

end Turnstile.Http
