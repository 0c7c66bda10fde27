/-
Which requests are charged, and what else the limiter does to a reply.

A request is charged if the limiter is enabled, the request is no preflight
request, and its path is that of one of the routes (`Charges`); the method
does not matter otherwise, since the limiter stands before the choice by
method. What charging does is the business of Http/Limited.lean.

A reply that is no denial is compared with the one that the same request gets
where nothing is charged (`FreeTwin`). Inside, an answer depends on the
limiter in one place only, the status page: any other answer is the same for
all limiters that let the request pass (`answer_congr`). Around it there is
nothing but the identifier in which two services with the same cross-origin
rules could differ (`handle_of_logged`).

A service whose limiter is disabled keeps it as idle as it was at the start,
whatever arrives (`run_of_idle`).

Chain (service): Limiter/Disabled.lean and Http/Layers.lean below.
-/
import Mathlib
import Turnstile.Proofs.Http.Layers
import Turnstile.Proofs.Limiter.Disabled

namespace Turnstile.Http

open Reply

-- =============================================================== comparing replies

/-- The fields, those with one of these names without their values. -/
def Header.blank (names : List String) (headers : List Header) : List Header :=
  headers.map fun header =>
    if header.name ∈ names then { header with value := [] } else header

namespace Reply

variable {reply other : Reply} {names : List String} {method page : String}

/-- The replies have the same status and the same fields, but for the values of
those with one of these names. -/
structure AgreesBut (names : List String) (reply other : Reply) : Prop where
  status : reply.status = other.status
  headers : Header.blank names reply.headers = Header.blank names other.headers

theorem AgreesBut.refl (names : List String) (reply : Reply) :
    reply.AgreesBut names reply :=
  ⟨rfl, rfl⟩

/-- The reply shows a page. In reply to HEAD there is only its length. -/
structure ShowsPage (method page : String) (reply : Reply) : Prop where
  status : reply.status = 200
  body : reply.body = if method = "HEAD" then "" else page
  length : Header.first? "content-length" reply.headers
    = some (bytesOf (toString page.utf8ByteSize))

/-- Further fields do not hide the length. -/
theorem ShowsPage.append (h : reply.ShowsPage method page) (more : List Header) :
    ({ reply with headers := reply.headers ++ more } : Reply).ShowsPage method page :=
  ⟨h.status, h.body, Header.first?_append h.length⟩

/-- The status page, by what a limiter and its twin have in common, and the two
members in which they may differ. -/
def statusPage (quota : Quota) (interval : Duration) (enabled : Bool) (tracked : ℕ) :
    String :=
  "\x7b\"enabled\":" ++ toString enabled ++ ",\"rps\":" ++ number quota.rate
    ++ ",\"burst\":" ++ toString quota.burst.toNat
    ++ ",\"eviction_interval_ms\":" ++ toString interval.milliWord
    ++ ",\"tracked_clients\":" ++ toString tracked ++ "\x7d"

example : statusPage ⟨.ofNat 10, 20⟩ (.ofNanos 60000000000) true 3
    = "\x7b\"enabled\":true,\"rps\":10.0,\"burst\":20,"
      ++ "\"eviction_interval_ms\":60000,\"tracked_clients\":3\x7d" := by
  decide +kernel

theorem body_limiterStatus (limiter : Limiter) :
    (limiterStatus limiter).body
      = statusPage limiter.registry.quota limiter.evictionInterval limiter.enabled
        limiter.registry.size := by
  show object
    [member "enabled" (toString limiter.enabled),
     member "rps" (number limiter.registry.quota.rate),
     member "burst" (toString limiter.registry.quota.burst.toNat),
     member "eviction_interval_ms" (toString limiter.evictionInterval.milliWord),
     member "tracked_clients" (toString limiter.registry.size)] = _
  unfold statusPage
  generalize toString limiter.enabled = enabled, number _ = rate,
    toString limiter.registry.quota.burst.toNat = burst,
    toString limiter.evictionInterval.milliWord = interval,
    toString limiter.registry.size = tracked
  rw [← String.toList_inj]
  simp [object, member]

/-- The status page as it leaves its route. -/
theorem showsPage_limiterStatus (method : String) (limiter : Limiter) :
    ((limiterStatus limiter).measured.trimmed method).ShowsPage method
      (statusPage limiter.registry.quota limiter.evictionInterval limiter.enabled
        limiter.registry.size) where
  status := by simp [limiterStatus, json]
  body := by
    unfold trimmed
    split
    · rfl
    · exact body_limiterStatus limiter
  length := by
    rw [trimmed_headers, ← body_limiterStatus]
    exact first?_json_withHeader (by simp [Header.lowered, Char.toLower]) _ _ _

/-- Two status pages differ at most in their lengths, as far as the fields go. -/
theorem agreesBut_limiterStatus (method : String) (limiter other : Limiter) :
    ((limiterStatus limiter).measured.trimmed method).AgreesBut
      ["x-request-id", "content-length"]
      ((limiterStatus other).measured.trimmed method) where
  status := by simp [limiterStatus, json]
  headers := by
    simp [Header.blank, measured, withHeader, limiterStatus, json, Header.ofText]

end Reply

-- ================================================================== the charge

/-- The routes by their paths. -/
theorem Route.ofPath?_eq (path : String) :
    Route.ofPath? path
      = if path = "/api/v1/health" then some .health
        else if path = "/api/v1/rate-limit" then some .limiterStatus
        else none := by
  have hhealth : Route.health.path = "/api/v1/health" := by
    simp [Route.path, Route.innerPath]
  have hstatus : Route.limiterStatus.path = "/api/v1/rate-limit" := by
    simp [Route.path, Route.innerPath]
  unfold Route.ofPath?
  rw [List.find?_cons, List.find?_singleton, hhealth, hstatus]
  by_cases hpath : path = "/api/v1/health"
  · simp [hpath]
  · rw [beq_false_of_ne (Ne.symm hpath)]
    by_cases hother : path = "/api/v1/rate-limit"
    · simp [hother]
    · simp [hpath, hother, beq_false_of_ne (Ne.symm hother)]

theorem Request.isLimited_iff (request : Request) :
    request.isLimited = true ↔ request.method ≠ "OPTIONS"
      ∧ (request.uri.path = "/api/v1/health"
        ∨ request.uri.path = "/api/v1/rate-limit") := by
  unfold Request.isLimited
  rw [Bool.and_eq_true, bne_iff_ne, Route.ofPath?_eq]
  by_cases hpath : request.uri.path = "/api/v1/health"
  · simp [hpath]
  · by_cases hother : request.uri.path = "/api/v1/rate-limit"
    · simp [hother]
    · simp [hpath, hother]

/-- The request asks for the status page. -/
def Request.AsksStatus (request : Request) : Prop :=
  (request.method = "GET" ∨ request.method = "HEAD")
    ∧ request.uri.path = "/api/v1/rate-limit"

theorem Request.AsksStatus.logged {request : Request} (hasks : request.AsksStatus) :
    request.method ≠ "OPTIONS" := by
  rcases hasks.1 with hmethod | hmethod <;> simp [hmethod]

theorem Request.asksStatus_iff (request : Request) :
    request.AsksStatus ↔ Route.serves request.method = true
      ∧ Route.ofPath? request.uri.path = some .limiterStatus := by
  unfold Request.AsksStatus Route.serves
  rw [Route.ofPath?_eq, Bool.or_eq_true, beq_iff_eq, beq_iff_eq]
  by_cases hpath : request.uri.path = "/api/v1/health"
  · simp [hpath]
  · simp [hpath]

namespace Router

variable {router free : Router} {limiter other : Limiter} {fresh : String}
  {request : Request} {wait : Duration}

/-- The service charges the client for the request. -/
def Charges (router : Router) (request : Request) : Prop :=
  router.limiter.enabled = true ∧ request.method ≠ "OPTIONS"
    ∧ (request.uri.path = "/api/v1/health" ∨ request.uri.path = "/api/v1/rate-limit")

theorem charges_iff (router : Router) (request : Request) :
    router.Charges request
      ↔ router.limiter.enabled = true ∧ request.isLimited = true := by
  rw [Request.isLimited_iff]
  exact Iff.rfl

/-- The limiter is asked once for a request that is charged, and is left alone
otherwise. -/
theorem handle_limiter_of_charges :
    (router.Charges request →
      (router.handle fresh request).2.1.limiter
        = (router.limiter.request request.client).2)
    ∧ (¬ router.Charges request →
      (router.handle fresh request).2.1.limiter = router.limiter) := by
  rw [charges_iff, handle_limiter]
  constructor
  · rintro ⟨-, hlimited⟩
    rw [if_pos hlimited]
  · intro hfree
    by_cases hlimited : request.isLimited = true
    · have hdisabled : router.limiter.enabled = false :=
        eq_false_of_ne_true fun henabled => hfree ⟨henabled, hlimited⟩
      rw [if_pos hlimited, Limiter.request_of_disabled hdisabled]
    · rw [if_neg hlimited]

theorem status_eq_denial_iff :
    (router.handle fresh request).1.status = 429
      ↔ router.Charges request
        ∧ ∃ wait, (router.limiter.request request.client).1 = .denied wait := by
  rw [handle_status_eq_iff, charges_iff]
  constructor
  · rintro ⟨hlimited, wait, hdenied⟩
    have henabled : router.limiter.enabled = true := by
      by_contra hdisabled
      rw [Limiter.request_of_disabled (eq_false_of_ne_true hdisabled)] at hdenied
      cases hdenied
    exact ⟨⟨henabled, hlimited⟩, wait, hdenied⟩
  · rintro ⟨⟨-, hlimited⟩, hdenied⟩
    exact ⟨hlimited, hdenied⟩

/-- A disabled limiter denies nothing and is left alone. -/
theorem handle_of_disabled (hdisabled : router.limiter.enabled = false)
    (fresh : String) (request : Request) :
    (router.handle fresh request).1.status ≠ 429
      ∧ (router.handle fresh request).2.1.limiter = router.limiter := by
  constructor
  · intro hdenial
    obtain ⟨⟨henabled, -⟩, -⟩ := status_eq_denial_iff.mp hdenial
    rw [hdisabled] at henabled
    cases henabled
  · rw [handle_limiter, Limiter.request_of_disabled hdisabled, ite_self]

-- ============================================================== the same reply

/-- Of what the limiter is after the charge only the status page tells. -/
theorem answer_of_asksStatus (hasks : request.AsksStatus)
    (hallowed : (limiter.request request.client).1 = .allowed) :
    (answer limiter request).1
      = ((limiterStatus (limiter.request request.client).2).measured.trimmed
          request.method) := by
  obtain ⟨hserves, hroute⟩ := request.asksStatus_iff.mp hasks
  rw [answer_of_route hroute, answerOn_of_allowed hallowed, Route.withAllow,
    if_pos hserves, if_pos hserves]
  rfl

/-- All limiters that let a request pass leave the same answer, but for the
status page. -/
theorem answer_congr (hasks : ¬ request.AsksStatus)
    (hpass : (Route.ofPath? request.uri.path).isSome →
      (limiter.request request.client).1 = .allowed)
    (hother : (Route.ofPath? request.uri.path).isSome →
      (other.request request.client).1 = .allowed) :
    (answer limiter request).1 = (answer other request).1 := by
  rw [Request.asksStatus_iff] at hasks
  cases hroute : Route.ofPath? request.uri.path with
  | none => rw [answer_of_unknown hroute, answer_of_unknown hroute]
  | some route =>
      rw [hroute] at hpass hother
      rw [answer_of_route hroute, answer_of_route hroute,
        answerOn_of_allowed (hpass rfl), answerOn_of_allowed (hother rfl)]
      cases route with
      | health => rfl
      | limiterStatus =>
          have hunserved : Route.serves request.method = false :=
            eq_false_of_ne_true fun hserves => hasks ⟨hserves, hroute⟩
          simp [hunserved]

-- ================================================================ whole replies

/-- The service answers the same requests, where nothing is charged. -/
structure FreeTwin (router free : Router) : Prop where
  disabled : free.limiter.enabled = false
  rules : free.rules = router.rules
  quota : free.limiter.registry.quota = router.limiter.registry.quota
  interval : free.limiter.evictionInterval = router.limiter.evictionInterval

/-- Around the answer only the identifier may differ. -/
theorem agreesBut_handle {names : List String} {fresh' : String}
    (hid : "x-request-id" ∈ names) (hrules : free.rules = router.rules)
    (hlogged : request.method ≠ "OPTIONS")
    (hanswer : (answer router.limiter request).1.AgreesBut names
      (answer free.limiter request).1) :
    (router.handle fresh request).1.AgreesBut names (free.handle fresh' request).1 := by
  rw [handle_of_logged hlogged, handle_of_logged hlogged, hrules]
  refine ⟨hanswer.status, ?_⟩
  have hheaders := hanswer.headers
  simp only [Header.blank, List.map_append, List.map_cons, List.map_nil, if_pos hid] at *
  rw [hheaders]

theorem allowed_of_served (hserved : (router.handle fresh request).1.status ≠ 429)
    (hlogged : request.method ≠ "OPTIONS")
    (hroute : (Route.ofPath? request.uri.path).isSome) :
    (router.limiter.request request.client).1 = .allowed := by
  have hlimited : request.isLimited = true := by
    simp [Request.isLimited, hlogged, hroute]
  cases hanswer : (router.limiter.request request.client).1 with
  | allowed => rfl
  | denied wait =>
      exact absurd (handle_status_eq_iff.mpr ⟨hlimited, wait, hanswer⟩) hserved

/-- A served request gets the reply that it would get for nothing, if that does
not tell about the limiter. -/
theorem reply_of_served (hserved : (router.handle fresh request).1.status ≠ 429)
    (htwin : router.FreeTwin free) (fresh' : String) (hasks : ¬ request.AsksStatus) :
    (router.handle fresh request).1.AgreesBut ["x-request-id"]
        (free.handle fresh' request).1
      ∧ (router.handle fresh request).1.body = (free.handle fresh' request).1.body := by
  by_cases hpreflight : request.method = "OPTIONS"
  · rw [handle_of_preflight hpreflight, handle_of_preflight hpreflight, htwin.rules]
    exact ⟨.refl _ _, rfl⟩
  · have hanswer : (answer router.limiter request).1 = (answer free.limiter request).1 :=
      answer_congr hasks (allowed_of_served hserved hpreflight)
        fun _ => by rw [Limiter.request_of_disabled htwin.disabled]
    refine ⟨agreesBut_handle (List.mem_singleton_self _) htwin.rules hpreflight ?_, ?_⟩
    · rw [hanswer]
      exact .refl _ _
    · rw [handle_of_logged hpreflight, handle_of_logged hpreflight]
      show (answer router.limiter request).1.body = (answer free.limiter request).1.body
      rw [hanswer]

/-- A served request for the status page gets it as the limiter is after the
charge. -/
theorem showsPage_of_served (hserved : (router.handle fresh request).1.status ≠ 429)
    (hasks : request.AsksStatus) :
    (router.handle fresh request).1.ShowsPage request.method
      (statusPage router.limiter.registry.quota router.limiter.evictionInterval
        router.limiter.enabled
        (router.handle fresh request).2.1.limiter.registry.size) := by
  have hlogged := hasks.logged
  obtain ⟨-, hroute⟩ := request.asksStatus_iff.mp hasks
  have hallowed := allowed_of_served hserved hlogged (by rw [hroute]; rfl)
  have hlimited : request.isLimited = true :=
    request.isLimited_iff.mpr ⟨hlogged, .inr hasks.2⟩
  have hafter := handle_limiter router fresh request
  rw [if_pos hlimited] at hafter
  obtain ⟨henabled, hquota, hinterval⟩ :=
    router.limiter.request_settings request.client
  have hpage := showsPage_limiterStatus request.method
    (router.limiter.request request.client).2
  rw [← answer_of_asksStatus hasks hallowed, henabled, hquota, hinterval,
    ← hafter] at hpage
  rw [handle_of_logged hlogged] at hpage ⊢
  exact ((hpage.append _).append _).append _

theorem agreesBut_of_asksStatus (hserved : (router.handle fresh request).1.status ≠ 429)
    (htwin : router.FreeTwin free) (fresh' : String) (hasks : request.AsksStatus) :
    (router.handle fresh request).1.AgreesBut ["x-request-id", "content-length"]
      (free.handle fresh' request).1 := by
  have hlogged := hasks.logged
  obtain ⟨-, hroute⟩ := request.asksStatus_iff.mp hasks
  have hallowed := allowed_of_served hserved hlogged (by rw [hroute]; rfl)
  have hfree : (free.limiter.request request.client).1 = .allowed := by
    rw [Limiter.request_of_disabled htwin.disabled]
  apply agreesBut_handle List.mem_cons_self htwin.rules hlogged
  rw [answer_of_asksStatus hasks hallowed, answer_of_asksStatus hasks hfree]
  exact agreesBut_limiterStatus _ _ _

-- ============================================================ nothing charged

theorem perform_of_idle (hidle : router.limiter.Idle) (action : Action) :
    (router.perform action).2.1.limiter.Idle
      ∧ ∀ reply, (router.perform action).1 = .replied reply → reply.status ≠ 429 := by
  cases action with
  | act action =>
      exact ⟨hidle.perform action, fun reply hreplied => nomatch hreplied⟩
  | serve fresh request =>
      obtain ⟨hserved, hleft⟩ := handle_of_disabled hidle.disabled fresh request
      refine ⟨?_, fun reply hreplied => ?_⟩
      · show (router.handle fresh request).2.1.limiter.Idle
        rw [hleft]
        exact hidle
      · cases hreplied
        exact hserved

theorem run_of_idle (hidle : router.limiter.Idle) (actions : List Action) :
    (router.run actions).2.1.limiter.Idle
      ∧ ∀ reply, .replied reply ∈ (router.run actions).1 → reply.status ≠ 429 := by
  induction actions generalizing router with
  | nil => exact ⟨hidle, fun reply hmem => nomatch hmem⟩
  | cons action rest ih =>
      obtain ⟨hnext, hreply⟩ := perform_of_idle hidle action
      obtain ⟨hlast, hreplies⟩ := ih hnext
      refine ⟨hlast, fun reply hmem => ?_⟩
      rcases List.mem_cons.mp hmem with hhead | htail
      · exact hreply reply hhead.symm
      · exact hreplies reply htail

-- ================================================================ the promise

/-- What a service in any state makes of any request. The limiter is asked once
for the client if the request is charged, and untouched otherwise; a denial is
sent exactly if it was asked and denied. Any other reply is the one of a
service with the same settings that charges nothing: the same status, and the
same fields and body but for the identifier. On the status page the two differ
in whether the limiter is enabled and in the number of clients, which is the
one after the charge, and so perhaps in the page's length.

A service whose limiter is disabled from the start denies nothing and tracks
nobody, whatever happens. -/
theorem charges_routes (router : Router) (fresh : String) (request : Request) :
    let admission := router.limiter.request request.client
    let reply := (router.handle fresh request).1
    let after := (router.handle fresh request).2.1
    after.rules = router.rules
      ∧ (router.Charges request → after.limiter = admission.2)
      ∧ (¬ router.Charges request → after.limiter = router.limiter)
      ∧ (reply.status = 429
        ↔ router.Charges request ∧ ∃ wait, admission.1 = .denied wait)
      ∧ (reply.status ≠ 429 →
        ∀ (free : Router) (fresh' : String), router.FreeTwin free →
        let same := (free.handle fresh' request).1
        let page := statusPage router.limiter.registry.quota
          router.limiter.evictionInterval
        (¬ request.AsksStatus →
          reply.AgreesBut ["x-request-id"] same ∧ reply.body = same.body)
          ∧ (request.AsksStatus →
            reply.AgreesBut ["x-request-id", "content-length"] same
              ∧ reply.ShowsPage request.method
                (page router.limiter.enabled after.limiter.registry.size)
              ∧ same.ShowsPage request.method (page false free.limiter.registry.size)))
      ∧ ∀ (limits : Settings.RateLimit) (settings : Settings.CrossOrigin)
          (actions : List Action), limits.enabled = false →
        let ran := (start limits settings).1.run actions
        (∀ reply, .replied reply ∈ ran.1 → reply.status ≠ 429)
          ∧ ran.2.1.limiter.registry.clients = [] := by
  intro admission reply after
  refine ⟨handle_rules router fresh request, handle_limiter_of_charges.1,
    handle_limiter_of_charges.2, status_eq_denial_iff, ?_, ?_⟩
  · intro hserved free fresh' htwin same page
    refine ⟨reply_of_served hserved htwin fresh', fun hasks => ⟨?_, ?_, ?_⟩⟩
    · exact agreesBut_of_asksStatus hserved htwin fresh' hasks
    · exact showsPage_of_served hserved hasks
    · obtain ⟨hfree, hleft⟩ := handle_of_disabled htwin.disabled fresh' request
      have hpage := showsPage_of_served hfree hasks
      rw [hleft, htwin.quota, htwin.interval, htwin.disabled] at hpage
      exact hpage
  · intro limits settings actions hdisabled ran
    have hstart : (start limits settings).1.limiter.Idle := Limiter.idle_start hdisabled
    obtain ⟨hlast, hreplies⟩ := run_of_idle hstart actions
    exact ⟨hreplies, hlast.nobody⟩

/-- A service has a twin from its start on. -/
theorem freeTwin_start (limits : Settings.RateLimit) (settings : Settings.CrossOrigin) :
    (start limits settings).1.FreeTwin
      (start { limits with enabled := false } settings).1 :=
  ⟨rfl, rfl, rfl, rfl⟩

/-- The first request of a new service asks for the status page, and counts
itself there; one for an unknown path is not charged. -/
theorem charges_routes_of_new_service :
    let limits : Settings.RateLimit := ⟨true, 5, 20, .ofNanos 3600000000000⟩
    let never : Settings.RateLimit := { limits with enabled := false }
    let router := (start limits .default).1
    let free := (start never .default).1
    let page := statusPage limits.quota limits.evictionInterval
    let status : Request :=
      ⟨"GET", .ofText "/api/v1/rate-limit", [.ofText "x-real-ip" "10.0.0.1"], none⟩
    let unknown : Request := ⟨"DELETE", .ofText "/api/v1/nope", [], none⟩
    (router.handle "1" status).2.1.limiter = (router.limiter.request "10.0.0.1").2
      ∧ (router.handle "1" status).1.ShowsPage "GET" (page true 1)
      ∧ (free.handle "2" status).1.ShowsPage "GET" (page false 0)
      ∧ (router.handle "1" unknown).2.1.limiter = router.limiter
      ∧ (router.handle "1" unknown).1.body = (free.handle "2" unknown).1.body
      ∧ (free.run [.serve "1" status, .serve "2" unknown]).2.1.limiter.registry.clients
        = [] := by
  intro limits never router free page status unknown
  have htwin : router.FreeTwin free := freeTwin_start limits .default
  have hserved : (router.handle "1" status).1.status ≠ 429 := by decide +kernel
  have hmissed : (router.handle "1" unknown).1.status ≠ 429 := by decide +kernel
  have hasks : status.AsksStatus := ⟨.inl rfl, by decide +kernel⟩
  have hpath : status.uri.path = "/api/v1/rate-limit" := hasks.2
  have hother : unknown.uri.path = "/api/v1/nope" := by decide +kernel
  have hcharges : router.Charges status := ⟨rfl, hasks.logged, .inr hpath⟩
  have hfree : ¬ router.Charges unknown := by simp [Charges, hother]
  have hclient : status.client = "10.0.0.1" := by decide +kernel
  have hcount : (router.handle "1" status).2.1.limiter.registry.size = 1 := by
    decide +kernel
  obtain ⟨-, hcharged, -, -, hpages, hidle⟩ := charges_routes router "1" status
  obtain ⟨-, -, hleft, -, hbodies, -⟩ := charges_routes router "1" unknown
  obtain ⟨-, hshown, hblank⟩ := (hpages hserved free "2" htwin).2 hasks
  have hsame := (hbodies hmissed free "2" htwin).1 (by simp [Request.AsksStatus, hother])
  rw [hcount] at hshown
  rw [← hclient]
  exact ⟨hcharged hcharges, hshown, hblank, hleft hfree, hsame.2,
    (hidle never .default [.serve "1" status, .serve "2" unknown] rfl).2⟩

end Router

end Turnstile.Http
