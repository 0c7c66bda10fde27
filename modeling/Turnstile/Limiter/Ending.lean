/-
The end of a limiter.

The sweeper stops when it is told to, or when the limiter is let go.
Admission and sweeps on demand go on after that. Whoever wants to know
that the sweeper has ended can wait for it, for a limited time.
-/
import Turnstile.Limiter.Clock

namespace Turnstile.Limiter

/-- The sweeper ends, if it is there to end. -/
def stopSweeper (limiter : Limiter) : Limiter × List Event :=
  match limiter.sweeper with
  | .waiting _ => ({ limiter with sweeper := .stopped }, [.sweeperStopped])
  | _ => (limiter, [])

/-- Tells the sweeper to stop. Only the first time does anything. -/
def shutdown (limiter : Limiter) : Limiter × List Event :=
  let (stopped, events) := { limiter with stopRequested := true }.stopSweeper
  if limiter.enabled && !limiter.stopRequested then
    (stopped, .shutdownRequested :: events)
  else (stopped, events)

/-- Lets go of the limiter, which stops the sweeper as well. -/
def release (limiter : Limiter) : Limiter × List Event :=
  { limiter with stopRequested := true, released := true }.stopSweeper

/-- Waits for the sweeper's end, for at most so many nanoseconds; says
whether the waiting came to its end.

Whoever waits first takes the sweeper along: later waits have nothing to
wait for and end at once, even if the first one gave up. -/
def join (limiter : Limiter) (nanos : Nat) : Bool × Limiter × List Event :=
  if limiter.joinable then
    let left := { limiter with joinable := false }
    match limiter.sweeper with
    | .waiting _ => (false, left.sleep nanos)
    | .failed => (true, left, [.sweeperFailed])
    | _ => (true, left, [])
  else (true, limiter, [])

end Turnstile.Limiter
