/-
The router.

A request passes, from the outside in, the cross-origin rules, the
request log, and on the two routes the rate limiter. A preflight request
is answered by the first of these and gets no further. The log gives each
request an identifier, the one it brings or a fresh one, which the reply
carries too.

The limiter is asked for every request on a route, also for one whose
method is not served; requests to other paths cost nothing.
-/
import Turnstile.Http.CrossOrigin

namespace Turnstile.Http

/-- What the service offers. -/
inductive Route where
  | health
  | limiterStatus
deriving DecidableEq

namespace Route

/-- The path of a route below the common part. -/
def innerPath : Route → String
  | .health => "/health"
  | .limiterStatus => "/rate-limit"

/-- The path of a route. -/
def path (route : Route) : String :=
  "/api/v1" ++ route.innerPath

/-- The route of a path, which has to match exactly. -/
def ofPath? (path : String) : Option Route :=
  [Route.health, .limiterStatus].find? fun route => route.path == path

/-- A method that a route serves. -/
def serves (method : String) : Bool :=
  method == "GET" || method == "HEAD"

/-- What a route answers. -/
def reply (limiter : Limiter) : Route → Reply
  | .health => .health
  | .limiterStatus => .limiterStatus limiter

/-- The reply to a method that is not served names those that are. -/
def withAllow (method : String) (reply : Reply) : Reply :=
  if serves method then reply else reply.withHeader "allow" "GET,HEAD"

end Route

/-- The service: a limiter, and the cross-origin rules. -/
structure Router where
  limiter : Limiter
  rules : CrossOrigin

namespace Router

/-- A new service, and what it reports at its start. -/
def start (limits : Settings.RateLimit) (crossOrigin : Settings.CrossOrigin) :
    Router × List Event :=
  let (limiter, started) := Limiter.start limits
  let (rules, warnings) := CrossOrigin.ofSettings crossOrigin
  (⟨limiter, rules⟩, started ++ warnings)

-- ====================================================================== routing

/-- The answer on a route: the limiter is asked first. -/
def answerOn (limiter : Limiter) (request : Request) (route : Route) :
    Reply × Limiter × List Event :=
  match limiter.request request.client with
  | (.allowed, limiter) =>
      let reply := if Route.serves request.method then route.reply limiter
        else .methodNotAllowed
      (Route.withAllow request.method reply, limiter, [])
  | (.denied wait, limiter) =>
      (Route.withAllow request.method (.ofRefusal (.rateLimited wait)), limiter,
        [.requestDenied request.client request.method route.innerPath wait.milliWord])

/-- The answer to a request that got past the log. Only on a route does a
HEAD request get no body. -/
def answer (limiter : Limiter) (request : Request) : Reply × Limiter × List Event :=
  match Route.ofPath? request.uri.path with
  | some route =>
      let (reply, limiter, events) := answerOn limiter request route
      (reply.measured.trimmed request.method, limiter, events)
  | none => ((Reply.ofRefusal .notFound).measured, limiter, [])

-- ====================================================================== logging

/-- The identifier of a request: the one it brings, or a fresh one. -/
def requestId (fresh : String) (request : Request) : Bytes :=
  (Header.first? "x-request-id" request.headers).getD (bytesOf fresh)

/-- The report of an answered request. -/
def handled (id : Bytes) (request : Request) (status : Nat) : Event :=
  .requestHandled ((textOf? id).getD "-") request.method request.uri.text status
    request.client

/-- The answer with its identifier, and the log of it. -/
def logged (fresh : String) (limiter : Limiter) (request : Request) :
    Reply × Limiter × List Event :=
  let id := requestId fresh request
  let (reply, limiter, events) := answer limiter request
  ({ reply with headers := reply.headers ++ [⟨"x-request-id", id⟩] }, limiter,
    events ++ [handled id request reply.status])

-- ================================================================== the whole way

/-- The answer to a preflight request. -/
def preflight (rules : CrossOrigin) (request : Request) : Reply :=
  let reply := (rules.preflight request).measured
  match Route.ofPath? request.uri.path with
  | some _ => Route.withAllow request.method reply
  | none => reply

/-- Answers a request. `fresh` is an identifier that was never used. -/
def handle (router : Router) (fresh : String) (request : Request) :
    Reply × Router × List Event :=
  let common := router.rules.commonHeaders request
  if request.method = "OPTIONS" then
    let reply := preflight router.rules request
    ({ reply with headers := reply.headers ++ common }, router, [])
  else
    let (reply, limiter, events) := logged fresh router.limiter request
    ({ reply with headers := reply.headers ++ common ++ [CrossOrigin.exposed] },
      { router with limiter }, events)

end Router

end Turnstile.Http
