/-
What the layers around an answer add to it.

A preflight request gets no further than the cross-origin rules. Any other
request is answered inside (`Router.answer`), and then the log adds the
identifier and a report, and the cross-origin rules add their fields. Each
layer's fields have names that no other layer uses (`Among`), so the fields of
one name in a reply are those of one layer (`Among.named_eq_nil`).

For the log this gives what it promises of each request that reaches it: one
report, and one field with the identifier. The request that it is not told of
is the preflight request (`preflight_untagged`).

Chain (service): Http/Limited.lean below; Http/Origins.lean and
Http/Charging.lean above.
-/
import Mathlib
import Turnstile.Proofs.Http.Limited

namespace Turnstile

/-- The event reports an answered request. -/
def Event.isHandled : Event → Bool
  | .requestHandled .. => true
  | _ => false

namespace Http

-- =========================================================== names of fields

namespace Header

variable {name : String} {names : List String} {headers front back : List Header}

/-- The fields of a name, in their order. -/
def named (name : String) (headers : List Header) : List Header :=
  headers.filter fun header => lowered header.name == lowered name

theorem named_append (name : String) (front back : List Header) :
    named name (front ++ back) = named name front ++ named name back :=
  List.filter_append ..

theorem named_singleton (name : String) (value : Bytes) :
    named name [⟨name, value⟩] = [⟨name, value⟩] := by
  simp [named]

/-- The fields have no other names than these. -/
def Among (names : List String) (headers : List Header) : Prop :=
  ∀ header ∈ headers, header.name ∈ names

theorem Among.append (hfront : Among names front) (hback : Among names back) :
    Among names (front ++ back) := by
  intro header hmem
  rcases List.mem_append.mp hmem with hmem | hmem
  · exact hfront header hmem
  · exact hback header hmem

theorem Among.mono {more : List String} (h : Among names headers) (hsub : names ⊆ more) :
    Among more headers :=
  fun header hmem => hsub (h header hmem)

theorem among_singleton (name : String) (value : Bytes) :
    Among [name] [⟨name, value⟩] := by
  intro header hmem
  rw [List.mem_singleton.mp hmem]
  exact List.mem_singleton_self name

/-- Fields with other names are not found. -/
theorem Among.named_eq_nil (h : Among names headers)
    (hother : ∀ own ∈ names, lowered own ≠ lowered name) :
    named name headers = [] := by
  apply List.filter_eq_nil_iff.mpr
  intro header hmem
  simpa using hother header.name (h header hmem)

end Header

open Header (Among named named_append named_singleton)

-- ============================================================ inner answers

/-- The names of the fields of an answer before any layer adds to it. -/
def Reply.ownNames : List String :=
  ["content-type", "retry-after", "allow", "content-length"]

/-- The names of the fields of an answer to a preflight request. -/
def Reply.preflightNames : List String :=
  ["access-control-allow-methods", "access-control-max-age",
    "access-control-allow-headers", "allow", "content-length"]

/-- The names of the fields that every reply gets from the cross-origin
rules. -/
def CrossOrigin.commonNames : List String :=
  ["vary", "access-control-allow-credentials", "access-control-allow-origin"]

namespace Reply

variable {names : List String} {reply : Reply}

theorem among_withHeader {name : String} (value : String)
    (h : Among names reply.headers) (hname : name ∈ names) :
    Among names (reply.withHeader name value).headers := by
  apply h.append
  apply (Header.among_singleton name _).mono
  simpa using hname

theorem among_withAllow (method : String) (h : Among names reply.headers)
    (hname : "allow" ∈ names) :
    Among names (Route.withAllow method reply).headers := by
  unfold Route.withAllow
  split
  · exact h
  · exact among_withHeader _ h hname

theorem among_json (status : ℕ) (body : String) :
    Among ownNames (json status body).headers :=
  (Header.among_singleton "content-type" _).mono (by simp [ownNames])

theorem among_ofRefusal (refusal : Refusal) :
    Among ownNames (ofRefusal refusal).headers := by
  cases refusal with
  | rateLimited wait =>
      exact among_withHeader _ (among_json _ _) (by simp [ownNames])
  | notFound => exact among_json _ _

theorem among_reply (limiter : Limiter) (route : Route) :
    Among ownNames (route.reply limiter).headers := by
  cases route with
  | health => exact among_json _ _
  | limiterStatus => exact among_json _ _

end Reply

namespace Router

open Reply

variable {router : Router} {fresh : String} {request : Request}

theorem among_answerOn (limiter : Limiter) (request : Request) (route : Route) :
    Among ownNames (answerOn limiter request route).1.headers := by
  cases hanswer : (limiter.request request.client).1 with
  | allowed =>
      rw [answerOn_of_allowed hanswer]
      apply among_withAllow _ _ (by simp [ownNames])
      split
      · exact among_reply _ _
      · simp [Among, methodNotAllowed]
  | denied wait =>
      rw [answerOn_of_denied hanswer]
      exact among_withAllow _ (among_ofRefusal _) (by simp [ownNames])

theorem among_answer (limiter : Limiter) (request : Request) :
    Among ownNames (answer limiter request).1.headers := by
  cases hroute : Route.ofPath? request.uri.path with
  | none =>
      rw [answer_of_unknown hroute]
      exact among_withHeader _ (among_ofRefusal _) (by simp [ownNames])
  | some route =>
      rw [answer_of_route hroute, trimmed_headers]
      exact among_withHeader _ (among_answerOn _ _ _) (by simp [ownNames])

theorem among_preflight (rules : CrossOrigin) (request : Request) :
    Among preflightNames (preflight rules request).headers := by
  have hrules : Among preflightNames (rules.preflight request).headers := by
    unfold CrossOrigin.preflight
    cases Header.first? "access-control-request-headers" request.headers <;>
      simp [Among, preflightNames, Header.ofText]
  have hmeasured : Among preflightNames (rules.preflight request).measured.headers :=
    among_withHeader _ hrules (by simp [preflightNames])
  unfold preflight
  split
  · exact among_withAllow _ hmeasured (by simp [preflightNames])
  · exact hmeasured

theorem among_commonHeaders (rules : CrossOrigin) (request : Request) :
    Among CrossOrigin.commonNames (rules.commonHeaders request) := by
  unfold CrossOrigin.commonHeaders
  cases rules.allowedOrigin? request <;>
    simp [Among, CrossOrigin.commonNames, Header.ofText]

-- ================================================================ the rules

theorem handle_rules (router : Router) (fresh : String) (request : Request) :
    (router.handle fresh request).2.1.rules = router.rules := by
  by_cases hpreflight : request.method = "OPTIONS"
  · rw [handle_of_preflight hpreflight]
  · rw [handle_of_logged hpreflight]

/-- The cross-origin rules stay as they were set up. -/
theorem run_rules (router : Router) (actions : List Action) :
    (router.run actions).2.1.rules = router.rules := by
  induction actions generalizing router with
  | nil => rfl
  | cons action rest ih =>
      have hstep : (router.perform action).2.1.rules = router.rules := by
        cases action with
        | serve fresh request => exact handle_rules router fresh request
        | act action => rfl
      exact (ih (router.perform action).2.1).trans hstep

-- ================================================================== the log

theorem answer_unhandled (limiter : Limiter) (request : Request) :
    (answer limiter request).2.2.filter Event.isHandled = [] := by
  cases hroute : Route.ofPath? request.uri.path with
  | none => rw [answer_of_unknown hroute]; rfl
  | some route =>
      rw [answer_of_route hroute]
      cases hanswer : (limiter.request request.client).1 with
      | allowed => rw [answerOn_of_allowed hanswer]; rfl
      | denied wait => rw [answerOn_of_denied hanswer]; rfl

/-- The identifier's field is the log's own. -/
theorem named_requestId (hlogged : request.method ≠ "OPTIONS") :
    named "x-request-id" (router.handle fresh request).1.headers
      = [⟨"x-request-id", requestId fresh request⟩] := by
  have hanswer : named "x-request-id" (answer router.limiter request).1.headers = [] :=
    (among_answer _ _).named_eq_nil
      (by simp [ownNames, Header.lowered, Char.toLower])
  have hcommon : named "x-request-id" (router.rules.commonHeaders request) = [] :=
    (among_commonHeaders _ _).named_eq_nil
      (by simp [CrossOrigin.commonNames, Header.lowered, Char.toLower])
  have hexposed : named "x-request-id" [CrossOrigin.exposed] = [] :=
    (Header.among_singleton _ _).named_eq_nil (by simp [Header.lowered, Char.toLower])
  rw [handle_of_logged hlogged]
  simp only [named_append, named_singleton, hanswer, hcommon, hexposed, List.nil_append,
    List.append_nil]

theorem named_requestId_of_preflight (hpreflight : request.method = "OPTIONS") :
    named "x-request-id" (router.handle fresh request).1.headers = [] := by
  have hinner : named "x-request-id" (preflight router.rules request).headers = [] :=
    (among_preflight _ _).named_eq_nil
      (by simp [preflightNames, Header.lowered, Char.toLower])
  have hcommon : named "x-request-id" (router.rules.commonHeaders request) = [] :=
    (among_commonHeaders _ _).named_eq_nil
      (by simp [CrossOrigin.commonNames, Header.lowered, Char.toLower])
  rw [handle_of_preflight hpreflight, named_append, hinner, hcommon, List.nil_append]

/-- A request that is no preflight request is reported once, with the status
of its reply and with its client, and its reply has one field with the
identifier, which is the request's own if it brings one. A preflight request
is not reported, and its reply has no such field. -/
theorem reports_and_tags (router : Router) (fresh : String) (request : Request) :
    let reply := (router.handle fresh request).1
    let events := (router.handle fresh request).2.2
    let id := (Header.first? "x-request-id" request.headers).getD (bytesOf fresh)
    (request.method ≠ "OPTIONS" →
      events.filter Event.isHandled
          = [.requestHandled ((textOf? id).getD "-") request.method request.uri.text
              reply.status (clientIdentity request.headers request.peer?)]
        ∧ named "x-request-id" reply.headers = [⟨"x-request-id", id⟩])
      ∧ (request.method = "OPTIONS" →
        events = [] ∧ named "x-request-id" reply.headers = []) := by
  intro reply events id
  constructor
  · intro hlogged
    refine ⟨?_, named_requestId hlogged⟩
    show (router.handle fresh request).2.2.filter _
      = [handled id request (router.handle fresh request).1.status]
    rw [handle_of_logged hlogged, List.filter_append, answer_unhandled]
    rfl
  · intro hpreflight
    refine ⟨?_, named_requestId_of_preflight hpreflight⟩
    show (router.handle fresh request).2.2 = []
    rw [handle_of_preflight hpreflight]

/-- A request that brings two identifiers, for a method that is not served. -/
theorem reports_and_tags_of_two_ids :
    let request : Request :=
      ⟨"POST", .ofText "/api/v1/health", [.ofText "X-Request-Id" "r1",
        .ofText "x-request-id" "r2", .ofText "x-real-ip" "10.0.0.1"], none⟩
    let router := (start .default .default).1
    let reply := (router.handle "fresh" request).1
    let events := (router.handle "fresh" request).2.2
    events.filter Event.isHandled
        = [.requestHandled "r1" "POST" "/api/v1/health" 405 "10.0.0.1"]
      ∧ named "x-request-id" reply.headers = [.ofText "x-request-id" "r1"] := by
  intro request router reply events
  have hmethod : request.method ≠ "OPTIONS" := by simp [request]
  have hid : (Header.first? "x-request-id" request.headers).getD (bytesOf "fresh")
      = bytesOf "r1" := by decide +kernel
  have hstatus : (router.handle "fresh" request).1.status = 405 := by decide +kernel
  have hclient : clientIdentity request.headers request.peer? = "10.0.0.1" := by
    decide +kernel
  have hshown : (textOf? (bytesOf "r1")).getD "-" = "r1" := by decide +kernel
  have huri : request.uri.text = "/api/v1/health" := by decide +kernel
  obtain ⟨hreport, htag⟩ := (reports_and_tags router "fresh" request).1 hmethod
  rw [hid, hshown, hstatus, hclient, huri] at hreport
  rw [hid] at htag
  exact ⟨hreport, htag⟩

/-- A preflight request that brings an identifier is answered without a report
and without the identifier. -/
theorem preflight_untagged :
    let request : Request :=
      ⟨"OPTIONS", .ofText "/api/v1/health", [.ofText "x-request-id" "r1"], none⟩
    let router := (start .default .default).1
    let reply := (router.handle "fresh" request).1
    let events := (router.handle "fresh" request).2.2
    reply.status = 200 ∧ events.filter Event.isHandled = []
      ∧ Header.first? "x-request-id" request.headers = some (bytesOf "r1")
      ∧ named "x-request-id" reply.headers = [] := by
  intro request router reply events
  refine ⟨?_, ?_, ?_, ?_⟩ <;> decide +kernel

end Router

end Http

end Turnstile
