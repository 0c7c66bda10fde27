/-
Log events.

Everything that the service reports is one of the events below. An event
knows its level, its text, the span it belongs to and its fields in
order; who prints it is not the library's business. All events of the
limiter belong to the span `rate_limiter`, all others to none.
-/
import Turnstile.Binary64.Basic

namespace Turnstile

/-- How urgent an event is. -/
inductive Level where
  | info
  | warn
deriving DecidableEq

/-- The value of a field of an event. -/
inductive FieldValue where
  | text (value : String)
  | flag (value : Bool)
  | count (value : Nat)
  | number (value : Binary64)
deriving DecidableEq

/-- What the service reports. -/
inductive Event where
  /-- A limiter was set up. -/
  | limiterStarted (enabled : Bool) (rate : Binary64) (burst intervalMillis : Nat)
  /-- The background sweeper has made a sweep. -/
  | swept (evicted left : Nat)
  /-- The background sweeper has ended as it should. -/
  | sweeperStopped
  /-- The background sweeper was found to have failed. -/
  | sweeperFailed
  /-- The limiter was asked to stop its sweeper. -/
  | shutdownRequested
  /-- A variable does not hold what it should; some readers say why. -/
  | overrideIgnored (name value : String) (reason : Option String)
  /-- A configured origin is the wildcard. -/
  | wildcardOriginSkipped
  /-- A configured origin cannot stand in a header. -/
  | invalidOriginSkipped (origin : String)
  /-- A request was denied for lack of tokens. -/
  | requestDenied (client method path : String) (retryMillis : Nat)
  /-- A request was answered. -/
  | requestHandled (requestId method uri : String) (status : Nat) (client : String)
deriving DecidableEq

namespace Event

/-- The level of an event. -/
def level : Event → Level
  | .limiterStarted .. => .info
  | .swept .. => .info
  | .sweeperStopped => .info
  | .sweeperFailed => .warn
  | .shutdownRequested => .info
  | .overrideIgnored .. => .warn
  | .wildcardOriginSkipped => .warn
  | .invalidOriginSkipped .. => .warn
  | .requestDenied .. => .warn
  | .requestHandled .. => .info

/-- The text of an event. -/
def message : Event → String
  | .limiterStarted .. => "Rate limiter initialized"
  | .swept .. => "Rate limiter client map cleaned up"
  | .sweeperStopped => "Rate limiter eviction task stopped"
  | .sweeperFailed => "Rate limiter eviction task ended abnormally"
  | .shutdownRequested => "Rate limiter shutdown requested"
  | .overrideIgnored .. => "Ignoring invalid environment override"
  | .wildcardOriginSkipped =>
      "Skipping wildcard CORS origin; credentials require explicit origins"
  | .invalidOriginSkipped .. => "Skipping invalid CORS origin"
  | .requestDenied .. => "Rate limit exceeded"
  | .requestHandled .. => "Request handled"

/-- The span of an event, if it belongs to one. -/
def span? : Event → Option String
  | .limiterStarted .. => some "rate_limiter"
  | .swept .. => some "rate_limiter"
  | .sweeperStopped => some "rate_limiter"
  | .sweeperFailed => some "rate_limiter"
  | .shutdownRequested => some "rate_limiter"
  | _ => none

/-- The fields of an event, in order. -/
def fields : Event → List (String × FieldValue)
  | .limiterStarted enabled rate burst intervalMillis =>
      [("enabled", .flag enabled), ("rps", .number rate), ("burst", .count burst),
        ("eviction_interval_ms", .count intervalMillis)]
  | .swept evicted left => [("evicted", .count evicted), ("clients", .count left)]
  | .overrideIgnored name value reason =>
      [("var", .text name), ("value", .text value)] ++
        (reason.map fun why => ("error", FieldValue.text why)).toList
  | .invalidOriginSkipped origin =>
      [("origin", .text origin), ("error", .text "failed to parse header value")]
  | .requestDenied client method path retryMillis =>
      [("client", .text client), ("method", .text method), ("path", .text path),
        ("retry_after_ms", .count retryMillis)]
  | .requestHandled requestId method uri status client =>
      [("request_id", .text requestId), ("method", .text method), ("uri", .text uri),
        ("status", .count status), ("client", .text client)]
  | _ => []

end Event

end Turnstile
