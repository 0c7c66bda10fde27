/-
Runs of the service.

Either a request arrives and is answered, or something happens to the
limiter by other means: time passes, above all. A list of such actions
fixes a whole history of the service, as a list of actions does for a
limiter alone (Limiter/Run.lean).
-/
import Turnstile.Http.Router
import Turnstile.Limiter.Run

namespace Turnstile.Http.Router

/-- What can happen to a service. -/
inductive Action where
  /-- A request arrives; `fresh` is an identifier that was never used. -/
  | serve (fresh : String) (request : Request)
  /-- Something happens to the limiter. -/
  | act (action : Limiter.Action)

/-- What an action answers. -/
inductive Outcome where
  | replied (reply : Reply)
  | acted (outcome : Limiter.Outcome)
deriving DecidableEq

/-- One action: its answer, the new service, and the events on the way. -/
def perform (router : Router) : Action → Outcome × Router × List Event
  | .serve fresh request =>
      let (reply, next, events) := router.handle fresh request
      (.replied reply, next, events)
  | .act action =>
      let (outcome, limiter, events) := router.limiter.perform action
      (.acted outcome, { router with limiter }, events)

/-- Actions one after the other, with all their events in order. -/
def run (router : Router) : List Action → List Outcome × Router × List Event
  | [] => ([], router, [])
  | action :: rest =>
      let (outcome, next, events) := router.perform action
      let (outcomes, last, more) := next.run rest
      (outcome :: outcomes, last, events ++ more)

end Turnstile.Http.Router
