/-
Token buckets.

A quota is a rate of tokens per second and a capacity, the burst. A
bucket holds tokens, counted in binary64, and the instant up to which
they have been credited. A refill credits the time since that instant
and caps the count; a draw refills and takes one token if there is one.

Instants need not come in order: a refill with an earlier instant credits
nothing, yet moves the bucket's instant back.
-/
import Turnstile.Duration.Basic

namespace Turnstile

-- ======================================================================= quotas

/-- What each client may do: tokens per second, and the capacity. -/
structure Quota where
  rate : Binary64
  burst : UInt32
deriving DecidableEq

namespace Quota

/-- The capacity of a bucket. -/
def capacity (quota : Quota) : Binary64 :=
  .ofNat quota.burst.toNat

/-- The nanoseconds of one token at a rate, rounded up. -/
def intervalNanos (rate : Binary64) : Binary64 :=
  (.ofNat nanosPerSecond / rate).ceil

/-- The time in which one token accrues at `rate`.

It is a whole number of nanoseconds, and one more if that many still fall
short of a token in binary64. Rates that give no usable interval (zero,
negative, not finite, or more than 2^64 nanoseconds to a token) give the
longest duration. -/
def tokenInterval (rate : Binary64) : Duration :=
  let nanos := intervalNanos rate
  if !nanos.isFinite || nanos ≤ 0 || .ofNat wordBound ≤ nanos then .longest
  else
    let whole := nanos.saturate (wordBound - 1)
    if secondsOf whole * rate < 1 then .ofNanos (whole + 1) else .ofNanos whole

/-- The wait that a denied client is told. -/
def retryAfter (quota : Quota) : Duration :=
  tokenInterval quota.rate

end Quota

-- ====================================================================== buckets

/-- A client's tokens, and the instant up to which they are credited. -/
structure Bucket where
  tokens : Binary64
  creditedAt : Nat
deriving DecidableEq

namespace Bucket

/-- A full bucket. -/
def full (quota : Quota) (now : Nat) : Bucket :=
  ⟨quota.capacity, now⟩

/-- Credits the time up to `now`, no further than the capacity. -/
def refill (quota : Quota) (now : Nat) (bucket : Bucket) : Bucket :=
  let accrued := secondsOf (now - bucket.creditedAt) * quota.rate
  ⟨(bucket.tokens + accrued).lesser quota.capacity, now⟩

/-- Takes one token, if there is a whole one. -/
def take? (bucket : Bucket) : Option Bucket :=
  if 1 ≤ bucket.tokens then some { bucket with tokens := bucket.tokens - 1 } else none

/-- Refills the bucket and takes a token if it can; says whether it could. -/
def draw (quota : Quota) (now : Nat) (bucket : Bucket) : Bool × Bucket :=
  let refilled := bucket.refill quota now
  match refilled.take? with
  | some rest => (true, rest)
  | none => (false, refilled)

/-- The bucket is below its capacity, so it is worth keeping. -/
def isPartial (quota : Quota) (bucket : Bucket) : Bool :=
  bucket.tokens < quota.capacity

end Bucket

end Turnstile
