/-
Cross-origin rules.

Browsers on the configured origins may use the service with credentials.
That rules out the wildcard as an origin, which is skipped with a
warning, as is an origin that cannot be the value of a header field. An
origin is allowed if it equals a configured one byte by byte, and only an
allowed origin is ever named in a reply.
-/
import Turnstile.Event
import Turnstile.Http.Reply
import Turnstile.Http.Request
import Turnstile.Settings.Basic

namespace Turnstile.Http

/-- Who may use the service from other origins. -/
structure CrossOrigin where
  allowed : List Bytes
  maxAgeSeconds : UInt64
deriving DecidableEq

namespace CrossOrigin

/-- What a configured origin comes to: an allowed origin, or a warning. -/
def judge (origin : String) : Except Event Bytes :=
  if Text.trim origin.toList = ['*'] then .error .wildcardOriginSkipped
  else match valueOf? origin with
    | some value => .ok value
    | none => .error (.invalidOriginSkipped origin)

/-- The allowed ones among configured origins, and the warnings about the
others. -/
def judgeAll : List String → List Bytes × List Event
  | [] => ([], [])
  | origin :: rest =>
      let (allowed, warnings) := judgeAll rest
      match judge origin with
      | .ok value => (value :: allowed, warnings)
      | .error warning => (allowed, warning :: warnings)

/-- The rules from the settings. -/
def ofSettings (settings : Settings.CrossOrigin) : CrossOrigin × List Event :=
  let (allowed, warnings) := judgeAll settings.allowedOrigins
  (⟨allowed, settings.maxAgeSeconds⟩, warnings)

/-- The origin of a request, if it is allowed. -/
def allowedOrigin? (rules : CrossOrigin) (request : Request) : Option Bytes :=
  (Header.first? "origin" request.headers).filter rules.allowed.contains

/-- The fields that every reply carries. -/
def commonHeaders (rules : CrossOrigin) (request : Request) : List Header :=
  [.ofText "vary"
      "origin, access-control-request-method, access-control-request-headers",
    .ofText "access-control-allow-credentials" "true"]
    ++ ((rules.allowedOrigin? request).map fun origin =>
      Header.mk "access-control-allow-origin" origin).toList

/-- The reply to a preflight request, before the fields of every reply: it
allows whatever header fields are asked for. -/
def preflight (rules : CrossOrigin) (request : Request) : Reply :=
  ⟨200,
    [.ofText "access-control-allow-methods" "HEAD,GET,POST,PUT,PATCH,DELETE",
      .ofText "access-control-max-age" (toString rules.maxAgeSeconds.toNat)]
      ++ ((Header.first? "access-control-request-headers" request.headers).map fun asked =>
        Header.mk "access-control-allow-headers" asked).toList,
    ""⟩

/-- The field that tells browsers what else they may read. -/
def exposed : Header :=
  .ofText "access-control-expose-headers" "content-type,authorization"

end CrossOrigin

end Turnstile.Http
