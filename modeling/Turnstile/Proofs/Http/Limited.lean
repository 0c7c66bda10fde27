/-
What the limiter has to do with a reply.

The limiter is asked about a request exactly if it is for one of the routes
and is no preflight (`Request.isLimited`). Then the reply is a denial with
the limiter's wait if the limiter denies (`handle_of_denied`), and nothing
else has the status of a denial (`handle_status_of_not_denied`).

Each step on the way of a request has an equation for each of its outcomes, and
nothing else is to be known of it: the layers (`handle_of_preflight`,
`handle_of_logged`), the choice of a route (`answer_of_route`,
`answer_of_unknown`), and the limiter before it (`answerOn_of_allowed`,
`answerOn_of_denied`). The layers add fields at the end, so they hide no field
that is there (`first?_append`).

The service does nothing else to its limiter, so a run of the service is a
run of the limiter (`run_limiter`), whose sweeps are the only ones that are
reported.

Chain (service): Http/Run.lean and Limiter/Calls.lean below; the promise of
the service (Http/Retry.lean) above.
-/
import Mathlib
import Turnstile.Http.Run
import Turnstile.Proofs.Limiter.Calls

namespace Turnstile.Http

/-- The limiter is asked about the request. -/
def Request.isLimited (request : Request) : Bool :=
  request.method != "OPTIONS" && (Route.ofPath? request.uri.path).isSome

theorem Request.exists_route_of_isLimited {request : Request}
    (hlimited : request.isLimited = true) :
    request.method ≠ "OPTIONS" ∧ ∃ route, Route.ofPath? request.uri.path = some route := by
  unfold Request.isLimited at hlimited
  rwa [Bool.and_eq_true, bne_iff_ne, Option.isSome_iff_exists] at hlimited

-- ================================================================= replies

theorem Header.first?_append {name : String} {front back : List Header} {value : Bytes}
    (hfirst : Header.first? name front = some value) :
    Header.first? name (front ++ back) = some value := by
  unfold Header.first? at *
  obtain ⟨header, hfound, hvalue⟩ := Option.map_eq_some_iff.mp hfirst
  rw [List.find?_append, hfound]
  exact congrArg some hvalue

/-- A field at the end says nothing of another name. -/
theorem Header.first?_snoc_other {name label : String}
    (hother : Header.lowered label ≠ Header.lowered name) (headers : List Header)
    (text : String) :
    Header.first? name (headers ++ [.ofText label text]) = Header.first? name headers := by
  have hmiss : (Header.lowered label == Header.lowered name) = false :=
    beq_eq_false_iff_ne.mpr hother
  unfold Header.first?
  rw [List.find?_append, List.find?_cons_of_neg (by simp [Header.ofText, hmiss]),
    List.find?_nil, Option.or_none]

namespace Reply

variable {reply : Reply} {method : String} {wait : Duration}

@[simp] theorem measured_status : reply.measured.status = reply.status := rfl

@[simp] theorem trimmed_status : (reply.trimmed method).status = reply.status := by
  unfold trimmed
  split <;> rfl

@[simp] theorem trimmed_headers : (reply.trimmed method).headers = reply.headers := by
  unfold trimmed
  split <;> rfl

@[simp] theorem withAllow_status :
    (Route.withAllow method reply).status = reply.status := by
  unfold Route.withAllow
  split <;> rfl

theorem withAllow_body : (Route.withAllow method reply).body = reply.body := by
  unfold Route.withAllow
  split <;> rfl

theorem withAllow_headers (method : String) (reply : Reply) :
    ∃ more, (Route.withAllow method reply).headers = reply.headers ++ more := by
  unfold Route.withAllow
  split
  · exact ⟨[], (List.append_nil _).symm⟩
  · exact ⟨_, rfl⟩

/-- The body of a denial, to the letter. -/
def denialBody (millis : ℕ) : String :=
  "\x7b\"message\":\"You have exceeded the request limit. Please try again later.\","
    ++ "\"retry_after_ms\":" ++ toString millis ++ "\x7d"

theorem body_ofRefusal (wait : Duration) :
    (ofRefusal (.rateLimited wait)).body = denialBody (retryMillis wait) := by
  show object [member "message"
      (quoted "You have exceeded the request limit. Please try again later."),
    member "retry_after_ms" (toString (retryMillis wait))] = _
  unfold denialBody
  generalize toString (retryMillis wait) = digits
  rw [← String.toList_inj]
  simp [object, member, quoted]

/-- A denial tells the wait twice. In reply to HEAD there is no body. -/
structure Denies (method : String) (wait : Duration) (reply : Reply) : Prop where
  status : reply.status = 429
  seconds : Header.first? "retry-after" reply.headers
    = some (bytesOf (toString (retrySeconds wait)))
  body : reply.body = if method = "HEAD" then "" else denialBody (retryMillis wait)

/-- Further fields hide none that is there. -/
theorem Denies.append (h : reply.Denies method wait) (more : List Header) :
    ({ reply with headers := reply.headers ++ more } : Reply).Denies method wait :=
  ⟨h.status, Header.first?_append h.seconds, h.body⟩

/-- A field added to a JSON reply is the first of its name. -/
theorem first?_json_withHeader {name : String}
    (hother : Header.lowered "content-type" ≠ Header.lowered name) (status : ℕ)
    (body value : String) :
    Header.first? name ((json status body).withHeader name value).headers
      = some (bytesOf value) := by
  show ((List.find? _ [Header.ofText "content-type" _, .ofText name value]).map _) = _
  rw [List.find?_cons_of_neg, List.find?_cons_of_pos]
  · rfl
  · exact beq_self_eq_true (Header.lowered name)
  · simpa [Header.ofText] using hother

theorem first?_ofRefusal (wait : Duration) :
    Header.first? "retry-after" (ofRefusal (.rateLimited wait)).headers
      = some (bytesOf (toString (retrySeconds wait))) :=
  first?_json_withHeader (by simp [Header.lowered, Char.toLower]) _ _ _

/-- A denial as it leaves a route. -/
theorem denies_trimmed (method : String) (wait : Duration) :
    ((Route.withAllow method (ofRefusal (.rateLimited wait))).measured.trimmed
      method).Denies method wait := by
  obtain ⟨more, hmore⟩ := withAllow_headers method (ofRefusal (.rateLimited wait))
  have hfirst : Header.first? "retry-after"
      (Route.withAllow method (ofRefusal (.rateLimited wait))).measured.headers
        = some (bytesOf (toString (retrySeconds wait))) := by
    apply Header.first?_append
    rw [hmore]
    exact Header.first?_append (first?_ofRefusal wait)
  have hbody : (Route.withAllow method (ofRefusal (.rateLimited wait))).measured.body
      = denialBody (retryMillis wait) := withAllow_body.trans (body_ofRefusal wait)
  refine ⟨?_, ?_, ?_⟩
  · rw [trimmed_status, measured_status, withAllow_status]
    rfl
  · rw [trimmed_headers]
    exact hfirst
  · unfold trimmed
    split
    · rfl
    · exact hbody

end Reply

-- ============================================================== the layers

namespace Router

variable {router : Router} {limiter : Limiter} {fresh : String} {request : Request}
  {route : Route} {wait : Duration}

/-- A preflight request is answered by the cross-origin rules alone. -/
theorem handle_of_preflight (hpreflight : request.method = "OPTIONS") :
    router.handle fresh request
      = ({ preflight router.rules request with
          headers := (preflight router.rules request).headers
            ++ router.rules.commonHeaders request },
        router, []) := by
  unfold handle
  rw [if_pos hpreflight]

/-- Any other request is answered inside, and all that is added are fields and
the report. -/
theorem handle_of_logged (hlogged : request.method ≠ "OPTIONS") :
    router.handle fresh request
      = ({ (answer router.limiter request).1 with
          headers := (answer router.limiter request).1.headers
            ++ [⟨"x-request-id", requestId fresh request⟩]
            ++ router.rules.commonHeaders request ++ [CrossOrigin.exposed] },
        { router with limiter := (answer router.limiter request).2.1 },
        (answer router.limiter request).2.2
          ++ [handled (requestId fresh request) request
            (answer router.limiter request).1.status]) := by
  unfold handle
  rw [if_neg hlogged]
  rfl

/-- What comes from a route is measured, and trimmed for HEAD. -/
theorem answer_of_route (hroute : Route.ofPath? request.uri.path = some route) :
    answer limiter request
      = ((answerOn limiter request route).1.measured.trimmed request.method,
        (answerOn limiter request route).2) := by
  unfold answer
  rw [hroute]

theorem answer_of_unknown (hroute : Route.ofPath? request.uri.path = none) :
    answer limiter request = ((Reply.ofRefusal .notFound).measured, limiter, []) := by
  unfold answer
  rw [hroute]

theorem answerOn_of_allowed
    (hallowed : (limiter.request request.client).1 = .allowed) :
    answerOn limiter request route
      = (Route.withAllow request.method
          (if Route.serves request.method
            then route.reply (limiter.request request.client).2
            else .methodNotAllowed),
        (limiter.request request.client).2, []) := by
  unfold answerOn
  split
  · next heq => rw [heq]
  · next heq => rw [heq] at hallowed; cases hallowed

theorem answerOn_of_denied
    (hdenied : (limiter.request request.client).1 = .denied wait) :
    answerOn limiter request route
      = (Route.withAllow request.method (.ofRefusal (.rateLimited wait)),
        (limiter.request request.client).2,
        [.requestDenied request.client request.method route.innerPath
          wait.milliWord]) := by
  unfold answerOn
  split
  · next heq => rw [heq] at hdenied; cases hdenied
  · next heq => rw [heq] at hdenied; cases hdenied; rw [heq]

-- ============================================================== the limiter

theorem answerOn_limiter (limiter : Limiter) (request : Request) (route : Route) :
    (answerOn limiter request route).2.1 = (limiter.request request.client).2 := by
  cases hanswer : (limiter.request request.client).1 with
  | allowed => rw [answerOn_of_allowed hanswer]
  | denied wait => rw [answerOn_of_denied hanswer]

theorem answer_limiter (limiter : Limiter) (request : Request) :
    (answer limiter request).2.1
      = if (Route.ofPath? request.uri.path).isSome then (limiter.request request.client).2
        else limiter := by
  cases hroute : Route.ofPath? request.uri.path with
  | none => rw [answer_of_unknown hroute]; rfl
  | some route =>
      rw [answer_of_route hroute]
      exact answerOn_limiter limiter request route

/-- The limiter sees the requests that it is asked about, and nothing else. -/
theorem handle_limiter (router : Router) (fresh : String) (request : Request) :
    (router.handle fresh request).2.1.limiter
      = if request.isLimited then (router.limiter.request request.client).2
        else router.limiter := by
  by_cases hpreflight : request.method = "OPTIONS"
  · rw [handle_of_preflight hpreflight]
    simp [Request.isLimited, hpreflight]
  · rw [handle_of_logged hpreflight]
    show (answer router.limiter request).2.1 = _
    rw [answer_limiter]
    simp [Request.isLimited, hpreflight]

theorem answer_of_denied (hroute : Route.ofPath? request.uri.path = some route)
    (hdenied : (limiter.request request.client).1 = .denied wait) :
    (answer limiter request).1.Denies request.method wait := by
  rw [answer_of_route hroute, answerOn_of_denied hdenied]
  exact Reply.denies_trimmed request.method wait

theorem answerOn_status_of_allowed
    (hallowed : (limiter.request request.client).1 = .allowed) :
    (answerOn limiter request route).1.status ≠ 429 := by
  rw [answerOn_of_allowed hallowed, Reply.withAllow_status]
  split
  · cases route <;> simp [Route.reply, Reply.health, Reply.limiterStatus, Reply.json]
  · simp [Reply.methodNotAllowed]

theorem handle_of_denied (hlimited : request.isLimited = true)
    (hdenied : (router.limiter.request request.client).1 = .denied wait) :
    (router.handle fresh request).1.Denies request.method wait := by
  obtain ⟨hmethod, route, hroute⟩ := request.exists_route_of_isLimited hlimited
  have hanswer := answer_of_denied hroute hdenied
  rw [handle_of_logged hmethod]
  exact ((hanswer.append _).append _).append _

/-- Only a denial has the status of a denial. -/
theorem handle_status_of_not_denied
    (hadmitted : request.isLimited = true →
      (router.limiter.request request.client).1 = .allowed) :
    (router.handle fresh request).1.status ≠ 429 := by
  by_cases hpreflight : request.method = "OPTIONS"
  · rw [handle_of_preflight hpreflight]
    show (preflight router.rules request).status ≠ 429
    unfold preflight
    split <;> simp [CrossOrigin.preflight]
  · rw [handle_of_logged hpreflight]
    show (answer router.limiter request).1.status ≠ 429
    cases hroute : Route.ofPath? request.uri.path with
    | none =>
        rw [answer_of_unknown hroute]
        simp [Reply.ofRefusal, Reply.json]
    | some route =>
        have hallowed : (router.limiter.request request.client).1 = .allowed := by
          apply hadmitted
          simp [Request.isLimited, hpreflight, hroute]
        rw [answer_of_route hroute, Reply.trimmed_status, Reply.measured_status]
        exact answerOn_status_of_allowed hallowed

/-- A reply has the status of a denial exactly if the limiter was asked and
denied. -/
theorem handle_status_eq_iff :
    (router.handle fresh request).1.status = 429
      ↔ request.isLimited = true
        ∧ ∃ wait, (router.limiter.request request.client).1 = .denied wait := by
  constructor
  · intro hstatus
    by_contra hnot
    refine handle_status_of_not_denied (fun hlimited => ?_) hstatus
    cases hanswer : (router.limiter.request request.client).1 with
    | allowed => rfl
    | denied wait => exact absurd ⟨hlimited, wait, hanswer⟩ hnot
  · rintro ⟨hlimited, wait, hdenied⟩
    exact (handle_of_denied hlimited hdenied).status

-- ==================================================================== runs

/-- What an action of the service is to the limiter. -/
def Action.toLimiter? : Action → Option Limiter.Action
  | .serve _ request =>
      if request.isLimited then some (.request request.client) else none
  | .act action => some action

theorem answerOn_silent (limiter : Limiter) (request : Request) (route : Route) :
    (answerOn limiter request route).2.2.countP Event.isSwept = 0 := by
  cases hanswer : (limiter.request request.client).1 with
  | allowed => rw [answerOn_of_allowed hanswer]; rfl
  | denied wait => rw [answerOn_of_denied hanswer]; rfl

theorem handle_silent (router : Router) (fresh : String) (request : Request) :
    (router.handle fresh request).2.2.countP Event.isSwept = 0 := by
  have hanswer : (answer router.limiter request).2.2.countP Event.isSwept = 0 := by
    cases hroute : Route.ofPath? request.uri.path with
    | none => rw [answer_of_unknown hroute]; rfl
    | some route =>
        rw [answer_of_route hroute]
        exact answerOn_silent ..
  by_cases hpreflight : request.method = "OPTIONS"
  · rw [handle_of_preflight hpreflight]
    rfl
  · rw [handle_of_logged hpreflight, List.countP_append, hanswer]
    rfl

/-- A run of the service is a run of its limiter. -/
theorem run_limiter (router : Router) (actions : List Action) :
    (router.run actions).2.1.limiter
        = (router.limiter.run (actions.filterMap Action.toLimiter?)).2.1
      ∧ (router.run actions).2.2.countP Event.isSwept
        = (router.limiter.run (actions.filterMap Action.toLimiter?)).2.2.countP
            Event.isSwept := by
  induction actions generalizing router with
  | nil => exact ⟨rfl, rfl⟩
  | cons action rest ih =>
      obtain ⟨hlimiter, hswept⟩ := ih (router.perform action).2.1
      have hrun : (router.run (action :: rest)).2
          = (((router.perform action).2.1.run rest).2.1,
            (router.perform action).2.2 ++ ((router.perform action).2.1.run rest).2.2) :=
        rfl
      rw [hrun, hlimiter, List.countP_append, hswept]
      cases action with
      | act action => exact ⟨rfl, (List.countP_append ..).symm⟩
      | serve fresh request =>
          have hnext := handle_limiter router fresh request
          have hsilent := handle_silent router fresh request
          simp only [perform, hnext, hsilent, List.filterMap_cons, Action.toLimiter?]
          cases request.isLimited with
          | false => simp
          | true => simp [Limiter.run, Limiter.perform]

end Router

end Turnstile.Http
