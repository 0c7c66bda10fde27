/-
A registry on a clock.

The clock stands still except when it is told to go on, so a run of calls
fixes every instant. `perform` is one call, `run` a list of them; the
laws about runs of any length are stated over `run`.
-/
import Turnstile.Registry

namespace Turnstile.Registry

/-- A registry and the present instant. -/
structure Timed where
  registry : Registry
  now : Nat
deriving DecidableEq

/-- What can be asked of a registry on a clock. -/
inductive Call where
  /-- A client asks for a token. -/
  | request (client : String)
  /-- Full buckets are removed. -/
  | sweep
  /-- Time passes. -/
  | wait (nanos : Nat)
deriving DecidableEq

/-- What a call answers. -/
inductive Outcome where
  | answered (admission : Admission)
  | removed (count : Nat)
  | waited
deriving DecidableEq

namespace Timed

/-- A registry that tracks no client, at instant zero. -/
def start (quota : Quota) : Timed :=
  ⟨.empty quota, 0⟩

/-- One call. -/
def perform (state : Timed) : Call → Outcome × Timed
  | .request client =>
      let (admission, registry) := state.registry.request state.now client
      (.answered admission, { state with registry })
  | .sweep =>
      (.removed (state.registry.sweepCount state.now),
        { state with registry := state.registry.sweep state.now })
  | .wait nanos => (.waited, { state with now := state.now + nanos })

/-- Calls one after the other. -/
def run (state : Timed) : List Call → List Outcome × Timed
  | [] => ([], state)
  | call :: rest =>
      let (outcome, next) := state.perform call
      let (outcomes, last) := next.run rest
      (outcome :: outcomes, last)

end Timed

end Turnstile.Registry
