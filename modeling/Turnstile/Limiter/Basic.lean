/-
The rate limiter.

A limiter that is enabled owns a registry of clients and a background
sweeper, which removes full buckets once per period until it is told to
stop. A limiter that is not enabled has neither: it admits everything and
tracks nobody.

The limiter lives on a clock, and the present instant is part of it. Here
stands what happens within an instant; how time passes is the subject of
Limiter/Clock.lean, and how it all ends of Limiter/Ending.lean.
-/
import Turnstile.Event
import Turnstile.Registry
import Turnstile.Settings.Basic
import Turnstile.Sweeper

namespace Turnstile

/-- A rate limiter on a clock. -/
structure Limiter where
  enabled : Bool
  evictionInterval : Duration
  registry : Registry
  now : Nat
  sweeper : Sweeper
  /-- Nobody has waited for the sweeper's end yet. -/
  joinable : Bool
  /-- The sweeper was told to stop. -/
  stopRequested : Bool
  /-- The limiter is gone; only its clock goes on. -/
  released : Bool
deriving DecidableEq

namespace Limiter

-- ======================================================================== start

/-- The sweeper of a limiter that starts at instant zero: its first
deadline is a period later. -/
def firstSweeper (limits : Settings.RateLimit) : Sweeper :=
  let deadline := Sweeper.period limits.evictionInterval
  if !limits.enabled then .absent
  else if deadline ≤ Sweeper.latestInstant then .waiting deadline
  else .failed

/-- A new limiter at instant zero, and the report of it. -/
def start (limits : Settings.RateLimit) : Limiter × List Event :=
  ({ enabled := limits.enabled
     evictionInterval := limits.evictionInterval
     registry := .empty limits.quota
     now := 0
     sweeper := firstSweeper limits
     joinable := limits.enabled
     stopRequested := false
     released := false },
    [.limiterStarted limits.enabled limits.rps limits.burst.toNat
      limits.evictionInterval.milliWord])

/-- Time between two background sweeps. -/
def period (limiter : Limiter) : Nat :=
  Sweeper.period limiter.evictionInterval

-- ==================================================================== admission

/-- A client asks to proceed. -/
def request (limiter : Limiter) (client : String) : Admission × Limiter :=
  if limiter.enabled then
    let (admission, registry) := limiter.registry.request limiter.now client
    (admission, { limiter with registry })
  else (.allowed, limiter)

/-- Clients ask to proceed, one after the other. -/
def requestAll (limiter : Limiter) : List String → List Admission × Limiter
  | [] => ([], limiter)
  | client :: rest =>
      let (admission, next) := limiter.request client
      let (admissions, last) := next.requestAll rest
      (admission :: admissions, last)

/-- Removes full buckets at once; gives their number. -/
def evict (limiter : Limiter) : Nat × Limiter :=
  if limiter.enabled then
    (limiter.registry.sweepCount limiter.now,
      { limiter with registry := limiter.registry.sweep limiter.now })
  else (0, limiter)

/-- Number of clients it tracks, while it is there. -/
def clientCount? (limiter : Limiter) : Option Nat :=
  if limiter.released then none else some limiter.registry.size

end Limiter

end Turnstile
