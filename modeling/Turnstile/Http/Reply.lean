/-
Replies.

A reply is a status, header fields and a body, which is JSON written
without blanks wherever there is one. The body of an error tells in one
sentence what is wrong, and after how many milliseconds to try again if
that helps; in that case the `Retry-After` field tells the seconds.

Both hints are rounded up, so that no client comes back early, and both
are words of sixty-four bits, so the longest waits are cut to the largest
word. At least one second is told.
-/
import Turnstile.Decimal.Layout
import Turnstile.Duration.Basic
import Turnstile.Http.Header
import Turnstile.Limiter.Basic

namespace Turnstile.Http

-- ======================================================================== hints

/-- The wait in milliseconds. -/
def retryMillis (wait : Duration) : Nat :=
  min (unitsCovering nanosPerMilli wait.nanos) (wordBound - 1)

/-- The wait in seconds. -/
def retrySeconds (wait : Duration) : Nat :=
  max 1 (min (unitsCovering nanosPerSecond wait.nanos) (wordBound - 1))

-- ==================================================================== the reply

/-- A reply. The order of fields with different names has no meaning. -/
structure Reply where
  status : Nat
  headers : List Header
  body : String
deriving DecidableEq

/-- Why a request gets no proper answer. -/
inductive Refusal where
  | rateLimited (wait : Duration)
  | notFound
deriving DecidableEq

namespace Reply

-- ========================================================================= JSON

/-- A member of a JSON object. -/
def member (name value : String) : String :=
  "\"" ++ name ++ "\":" ++ value

/-- A JSON object. -/
def object (members : List String) : String :=
  "\x7b" ++ ",".intercalate members ++ "\x7d"

/-- A text that needs no escapes as a JSON string. -/
def quoted (text : String) : String :=
  "\"" ++ text ++ "\""

/-- Rates in JSON have the fewest digits that read back and are positional
from 10^-5 up to 10^16; whole numbers end in `.0`. -/
def rateLayout : Decimal.Layout :=
  ⟨fun point => -4 ≤ point && point ≤ 16, true, .even⟩

/-- A number in JSON; what is no number there is null. -/
def number : Binary64 → String
  | .finite negative rank => rateLayout.text negative rank
  | _ => "null"

-- ====================================================================== replies

/-- A reply with a JSON body. -/
def json (status : Nat) (body : String) : Reply :=
  ⟨status, [.ofText "content-type" "application/json"], body⟩

/-- A reply with a further header field. -/
def withHeader (name value : String) (reply : Reply) : Reply :=
  { reply with headers := reply.headers ++ [.ofText name value] }

/-- The reply to a refused request. -/
def ofRefusal : Refusal → Reply
  | .rateLimited wait =>
      (json 429 (object
        [member "message"
          (quoted "You have exceeded the request limit. Please try again later."),
         member "retry_after_ms" (toString (retryMillis wait))])).withHeader
        "retry-after" (toString (retrySeconds wait))
  | .notFound => json 404 (object [member "message" (quoted "Resource not found.")])

/-- The service is alive. -/
def health : Reply :=
  json 200 (object [member "status" (quoted "ok")])

/-- The settings and the load of a limiter. -/
def limiterStatus (limiter : Limiter) : Reply :=
  json 200 (object
    [member "enabled" (toString limiter.enabled),
     member "rps" (number limiter.registry.quota.rate),
     member "burst" (toString limiter.registry.quota.burst.toNat),
     member "eviction_interval_ms" (toString limiter.evictionInterval.milliWord),
     member "tracked_clients" (toString limiter.registry.size)])

/-- The method is not served here. -/
def methodNotAllowed : Reply :=
  ⟨405, [], ""⟩

/-- The reply with the length of its body told. -/
def measured (reply : Reply) : Reply :=
  reply.withHeader "content-length" (toString reply.body.utf8ByteSize)

/-- The reply without its body, if the method asks for the fields alone. -/
def trimmed (method : String) (reply : Reply) : Reply :=
  if method = "HEAD" then { reply with body := "" } else reply

end Reply

end Turnstile.Http
