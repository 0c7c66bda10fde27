/-
The settings of the service and their defaults.

Three groups: the server's port, the rate limiter, and the cross-origin
rules. Each group has a default of its own, which stands wherever neither
a document nor the environment says otherwise.
-/
import Turnstile.Bucket

namespace Turnstile

namespace Settings

/-- Where the service listens. -/
structure Server where
  port : UInt16
deriving DecidableEq

/-- What the rate limiter does. -/
structure RateLimit where
  /-- A limiter that is not enabled admits everything. -/
  enabled : Bool
  /-- Sustained requests per second of one client. -/
  rps : Binary64
  /-- Requests of one client that may come at once. -/
  burst : UInt32
  /-- Time between two sweeps. -/
  evictionInterval : Duration
deriving DecidableEq

/-- What browsers on other origins may do. -/
structure CrossOrigin where
  allowedOrigins : List String
  /-- How long a browser may keep the answer to a preflight request. -/
  maxAgeSeconds : UInt64
deriving DecidableEq

/-- Port 8080. -/
def Server.default : Server :=
  ⟨8080⟩

/-- Ten requests per second and at once, swept every minute. -/
def RateLimit.default : RateLimit :=
  ⟨true, 10, 10, .ofNanos 60000000000⟩

/-- The two names of a local front end, and five minutes. -/
def CrossOrigin.default : CrossOrigin :=
  ⟨["http://localhost:3000", "http://127.0.0.1:3000"], 300⟩

/-- The quota of each client. -/
def RateLimit.quota (limits : RateLimit) : Quota :=
  ⟨limits.rps, limits.burst⟩

end Settings

/-- All settings. -/
structure Settings where
  server : Settings.Server
  rateLimit : Settings.RateLimit
  crossOrigin : Settings.CrossOrigin
deriving DecidableEq

namespace Settings

/-- The settings when nothing is said. -/
def default : Settings :=
  ⟨.default, .default, .default⟩

end Settings

end Turnstile
