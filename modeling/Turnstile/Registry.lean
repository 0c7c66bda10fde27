/-
The registry of clients.

A registry keeps one bucket per client identity, for a common quota. A
client is tracked from its first request on, when it gets a full bucket,
until a sweep finds its bucket full again and removes it. Identities are
opaque; the empty one is as good as any other.

Buckets stand in the order of their creation. `find?` is the view that
the laws are about; the order shows nowhere.
-/
import Turnstile.Bucket

namespace Turnstile

/-- The answer to a request for a token. -/
inductive Admission where
  | allowed
  | denied (retryAfter : Duration)
deriving DecidableEq

namespace Admission

/-- The request may proceed. -/
def isAllowed : Admission → Bool
  | .allowed => true
  | .denied _ => false

/-- The wait before another try, zero if the request may proceed. -/
def retryAfter : Admission → Duration
  | .allowed => .ofNanos 0
  | .denied wait => wait

end Admission

/-- The buckets of all tracked clients. -/
structure Registry where
  quota : Quota
  buckets : List (String × Bucket)
deriving DecidableEq

namespace Registry

/-- A registry that tracks no client. -/
def empty (quota : Quota) : Registry :=
  ⟨quota, []⟩

-- ======================================================================== views

/-- The bucket of a client, if it is tracked. -/
def find? (registry : Registry) (client : String) : Option Bucket :=
  registry.buckets.lookup client

/-- The client is tracked. -/
def contains (registry : Registry) (client : String) : Bool :=
  (registry.find? client).isSome

/-- Number of tracked clients. -/
def size (registry : Registry) : Nat :=
  registry.buckets.length

/-- The tracked clients. -/
def clients (registry : Registry) : List String :=
  registry.buckets.map Prod.fst

-- =================================================================== operations

/-- Puts a bucket in the place of the client's old one, or at the end. -/
def put (client : String) (bucket : Bucket) :
    List (String × Bucket) → List (String × Bucket)
  | [] => [(client, bucket)]
  | entry :: rest =>
      if entry.1 = client then (client, bucket) :: rest
      else entry :: put client bucket rest

/-- The client's bucket, a full one at first sight. -/
def bucketOf (registry : Registry) (now : Nat) (client : String) : Bucket :=
  (registry.find? client).getD (.full registry.quota now)

/-- Asks for a token of the client at the instant `now`. -/
def request (registry : Registry) (now : Nat) (client : String) :
    Admission × Registry :=
  let (admitted, bucket) := (registry.bucketOf now client).draw registry.quota now
  (if admitted then .allowed else .denied registry.quota.retryAfter,
    { registry with buckets := put client bucket registry.buckets })

/-- Goes through the buckets, refills each, and removes and counts those that
are full then. -/
def sweepThrough (quota : Quota) (now : Nat) (buckets : List (String × Bucket)) :
    List (String × Bucket) × Nat :=
  buckets.foldr (fun (client, bucket) (kept, removed) =>
    let refilled := bucket.refill quota now
    if refilled.isPartial quota then ((client, refilled) :: kept, removed)
    else (kept, removed + 1)) ([], 0)

/-- The registry after a sweep. -/
def sweep (registry : Registry) (now : Nat) : Registry :=
  { registry with buckets := (sweepThrough registry.quota now registry.buckets).1 }

/-- Number of buckets that a sweep removes, by its own count. -/
def sweepCount (registry : Registry) (now : Nat) : Nat :=
  (sweepThrough registry.quota now registry.buckets).2

/-- Asks for tokens of one client after the other, all at `now`. -/
def requestAll (registry : Registry) (now : Nat) :
    List String → List Admission × Registry
  | [] => ([], registry)
  | client :: rest =>
      let (admission, registry) := registry.request now client
      let (admissions, registry) := registry.requestAll now rest
      (admission :: admissions, registry)

end Registry

end Turnstile
