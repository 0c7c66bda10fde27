/-
Callers and sweeps that come at once.

A registry has a lock for each client. A caller takes the lock of its
client; if there is a bucket, it is refilled and drawn from before the lock
is let go. If there is none, the lock is let go and taken a second time, to
make a full bucket unless somebody else has made one meanwhile, and to draw
from it. A sweep takes the lock of one client after the other, of each at
most once, refills the bucket and removes it if it is full.

A `Turn` is one holding of a lock. Between two turns of one task all others
may have theirs, in any order. The clock stands still: everybody has read
the same instant.
-/
import Turnstile.Registry

namespace Turnstile.Registry

-- ================================================================ under a lock

/-- Draws from a bucket of the client and puts it back. -/
def drawFrom (registry : Registry) (now : Nat) (client : String) (bucket : Bucket) :
    Admission × Registry :=
  let (admitted, rest) := bucket.draw registry.quota now
  (if admitted then .allowed else .denied registry.quota.retryAfter,
    { registry with buckets := put client rest registry.buckets })

/-- Refills the client's bucket, and removes it if it is full. -/
def visit (registry : Registry) (now : Nat) (client : String) : Registry :=
  match registry.find? client with
  | none => registry
  | some bucket =>
      let refilled := bucket.refill registry.quota now
      { registry with
        buckets := if refilled.isPartial registry.quota then
            put client refilled registry.buckets
          else registry.buckets.filter (·.1 ≠ client) }

-- ======================================================================= tasks

/-- Somebody at work on a registry. -/
inductive Task where
  /-- A caller that has held no lock yet. -/
  | asking (client : String)
  /-- A caller that found no bucket. -/
  | missing (client : String)
  /-- A caller that is done. -/
  | answered (client : String) (answer : Admission)
  /-- A sweep, with the clients it has been to. -/
  | sweeping (visited : List String)
deriving DecidableEq

namespace Task

/-- The client that the task calls for. -/
def client? : Task → Option String
  | .asking client => some client
  | .missing client => some client
  | .answered client _ => some client
  | .sweeping _ => none

/-- The task has held no lock yet. -/
def isFresh : Task → Bool
  | .asking _ => true
  | .sweeping visited => visited.isEmpty
  | _ => false

/-- The task calls for the client and is done. -/
def completes (client : String) : Task → Bool
  | .answered other _ => other = client
  | _ => false

/-- The task calls for the client and was allowed. -/
def approves (client : String) : Task → Bool
  | .answered other answer => other = client && answer.isAllowed
  | _ => false

@[simp] theorem completes_answered (client other : String) (answer : Admission) :
    (answered other answer).completes client = decide (other = client) := rfl

@[simp] theorem approves_answered (client other : String) (answer : Admission) :
    (answered other answer).approves client
      = (decide (other = client) && answer.isAllowed) := rfl

end Task

-- ======================================================================= turns

/-- A registry and all that are at work on it. -/
structure Crowd where
  registry : Registry
  tasks : List Task
deriving DecidableEq

namespace Crowd

/-- One of the tasks holds one lock, at the instant `now`. -/
inductive Turn (now : Nat) : Crowd → Crowd → Prop
  /-- The bucket is there and is drawn from. -/
  | hit {client : String} {bucket : Bucket} (registry : Registry)
      (front back : List Task) (there : registry.find? client = some bucket) :
      Turn now ⟨registry, front ++ .asking client :: back⟩
        ⟨(registry.drawFrom now client bucket).2,
          front ++ .answered client (registry.drawFrom now client bucket).1 :: back⟩
  /-- The bucket is not there. -/
  | miss {client : String} (registry : Registry) (front back : List Task)
      (absent : registry.find? client = none) :
      Turn now ⟨registry, front ++ .asking client :: back⟩
        ⟨registry, front ++ .missing client :: back⟩
  /-- The bucket that was not there is made, unless it has come into being,
  and is drawn from. -/
  | enter {client : String} (registry : Registry) (front back : List Task) :
      Turn now ⟨registry, front ++ .missing client :: back⟩
        ⟨(registry.drawFrom now client (registry.bucketOf now client)).2,
          front ++ .answered client
            (registry.drawFrom now client (registry.bucketOf now client)).1 :: back⟩
  /-- A sweep comes to a bucket that it has not been to. -/
  | visit {client : String} {bucket : Bucket} {visited : List String}
      (registry : Registry) (front back : List Task)
      (there : registry.find? client = some bucket) (new : client ∉ visited) :
      Turn now ⟨registry, front ++ .sweeping visited :: back⟩
        ⟨registry.visit now client, front ++ .sweeping (client :: visited) :: back⟩

/-- Calls for the client that are done. -/
def completed (crowd : Crowd) (client : String) : Nat :=
  crowd.tasks.countP (Task.completes client)

/-- Calls for the client that were allowed. -/
def approved (crowd : Crowd) (client : String) : Nat :=
  crowd.tasks.countP (Task.approves client)

end Crowd

end Turnstile.Registry
