/-
Runs of a limiter.

An action is anything that can happen to a limiter, the passing of time
included, so a list of actions fixes a whole history: every instant,
every answer and every event. `perform` is one action and `run` a list of
them; the laws about the life of a limiter are stated over `run`.
-/
import Turnstile.Limiter.Ending

namespace Turnstile.Limiter

/-- What can happen to a limiter. -/
inductive Action where
  /-- A client asks to proceed. -/
  | request (client : String)
  /-- Full buckets are removed on demand. -/
  | evict
  /-- The clock jumps. -/
  | advance (nanos : Nat)
  /-- Time passes. -/
  | sleep (nanos : Nat)
  /-- The sweeper is told to stop. -/
  | shutdown
  /-- Somebody waits for the sweeper's end, for a limited time. -/
  | join (nanos : Nat)
  /-- The limiter is let go. -/
  | release
deriving DecidableEq

/-- What an action answers. -/
inductive Outcome where
  | answered (admission : Admission)
  | removed (count : Nat)
  | joined (ended : Bool)
  | done
deriving DecidableEq

/-- One action: its answer, the new limiter, and the events on the way. -/
def perform (limiter : Limiter) : Action → Outcome × Limiter × List Event
  | .request client =>
      let (admission, next) := limiter.request client
      (.answered admission, next, [])
  | .evict =>
      let (count, next) := limiter.evict
      (.removed count, next, [])
  | .advance nanos => (.done, limiter.advance nanos)
  | .sleep nanos => (.done, limiter.sleep nanos)
  | .shutdown => (.done, limiter.shutdown)
  | .join nanos =>
      let (ended, next) := limiter.join nanos
      (.joined ended, next)
  | .release => (.done, limiter.release)

/-- Actions one after the other, with all their events in order. -/
def run (limiter : Limiter) : List Action → List Outcome × Limiter × List Event
  | [] => ([], limiter, [])
  | action :: rest =>
      let (outcome, next, events) := limiter.perform action
      let (outcomes, last, more) := next.run rest
      (outcome :: outcomes, last, events ++ more)

end Turnstile.Limiter
