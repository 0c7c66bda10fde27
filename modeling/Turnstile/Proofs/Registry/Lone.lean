/-
Clients are isolated, and removing a full bucket goes unnoticed.

The second side is a bucket that one client has for itself. It is made full
at the client's first request, is refilled by every sweep, and is never
removed (`replay`). A registry that shares its map with everybody, makes
buckets when they are needed and forgets the full ones gives the client the
very same answers (`touches_eq_lone_replay`).

# The simulation

`Shadows` relates what the registry knows of the client to the lone
bucket. While the client is tracked the two are one bucket, to the bit.
While it is not, the lone bucket is full or not there yet, and since a full
bucket stays full under every refill (`Bucket.refill_of_full`), it answers
the next request as the new bucket of the registry does
(`Bucket.draw_of_full`).

- A request of the client: `shadows_draw`.
- A sweep: `shadows_sweep`; the bucket that it removes is the one whose
  shadow has just become full.
- All else leaves both sides alone.

Chain (registry): Registry/Invariant.lean below.
-/
import Mathlib
import Turnstile.Proofs.Registry.Invariant

namespace Turnstile.Registry

-- ===================================================== the lone bucket

/-- What a bucket that is never removed answers to visits; there is none
before the first request. -/
def replay (quota : Quota) : Option Bucket → List Visit → List Touch
  | _, [] => []
  | lone?, .asks now :: rest =>
      let (admitted, bucket) := (lone?.getD (.full quota now)).draw quota now
      .asked now (if admitted then .allowed else .denied quota.retryAfter)
        :: replay quota (some bucket) rest
  | lone?, .sweeps now :: rest =>
      .swept now :: replay quota (lone?.map (·.refill quota now)) rest

theorem replay_asks (quota : Quota) (lone? : Option Bucket) (now : ℕ)
    (rest : List Visit) :
    replay quota lone? (.asks now :: rest)
      = .asked now
          (if ((lone?.getD (.full quota now)).draw quota now).1 then .allowed
          else .denied quota.retryAfter)
        :: replay quota
          (some ((lone?.getD (.full quota now)).draw quota now).2) rest := rfl

/-- The call is a request of the client, a sweep or a wait. -/
def Call.concerns (client : String) : Call → Bool
  | .request other => other = client
  | _ => true

-- ====================================================== the simulation

/-- The lone bucket stands for what the registry knows of the client. -/
def Shadows (quota : Quota) : Option Bucket → Option Bucket → Prop
  | some bucket, lone? => lone? = some bucket
  | none, lone? => ∀ bucket ∈ lone?, bucket.tokens = quota.capacity

variable {quota : Quota} {state : Timed} {client : String} {now : ℕ}
  {tracked? lone? : Option Bucket}

theorem shadows_draw (hquota : quota.Usable)
    (hshadow : Shadows quota tracked? lone?) (now : ℕ) :
    (lone?.getD (.full quota now)).draw quota now
      = (tracked?.getD (.full quota now)).draw quota now := by
  cases tracked? with
  | some bucket =>
      have hsame : lone? = some bucket := hshadow
      rw [hsame]
  | none =>
      cases lone? with
      | none => rfl
      | some bucket => exact Bucket.draw_of_full hquota (hshadow bucket rfl) now

theorem shadows_sweep (hquota : quota.Usable)
    (hsound : ∀ bucket, tracked? = some bucket → bucket.Sound quota)
    (hshadow : Shadows quota tracked? lone?) (now : ℕ) :
    Shadows quota
      ((tracked?.map (·.refill quota now)).filter (·.isPartial quota))
      (lone?.map (·.refill quota now)) := by
  cases tracked? with
  | some bucket =>
      have hsame : lone? = some bucket := hshadow
      subst hsame
      rw [Option.map_some]
      cases hpartial : (bucket.refill quota now).isPartial quota with
      | true =>
          rw [Option.filter_some_pos hpartial]
          rfl
      | false =>
          -- the registry forgets the bucket, and the shadow is full
          rw [Option.filter_some_neg (by simp [hpartial])]
          intro full hfull
          obtain rfl := Option.some.inj hfull
          exact (((hsound bucket rfl).refill hquota now).isPartial_eq_false_iff
            hquota).mp hpartial
  | none =>
      intro refilled hrefilled
      obtain ⟨bucket, hbucket, rfl⟩ := Option.map_eq_some_iff.mp hrefilled
      show (bucket.refill quota now).tokens = _
      rw [Bucket.refill_of_full hquota (hshadow bucket hbucket)]
      rfl

/-- From a sound state on, a client is answered as its shadow is. -/
theorem touches_eq_replay (hquota : quota.Usable) (calls : List Call) :
    ∀ {state : Timed} {lone? : Option Bucket}, state.registry.quota = quota →
      state.Sound → Shadows quota (state.registry.find? client) lone? →
      touches client (state.history calls)
        = replay quota lone? (visits client state.now calls) := by
  induction calls with
  | nil =>
      intro state lone? _ _ _
      rfl
  | cons call rest ih =>
      intro state lone? hsame hs hshadow
      have hnext := hs.perform (hsame ▸ hquota) call
      have hkept := (quota_perform state call).trans hsame
      cases call using Call.cases_for client with
      | own =>
          have hdraw := shadows_draw hquota hshadow state.now
          have hview := find?_request state.registry state.now client client
          rw [if_pos rfl, Registry.bucketOf, hsame] at hview
          have hanswer : (state.registry.request state.now client).1
              = if ((lone?.getD (.full quota state.now)).draw quota
                  state.now).1 then .allowed else .denied quota.retryAfter := by
            rw [hdraw, ← hsame]
            rfl
          rw [touches_own, visits_own, replay_asks, hanswer]
          refine congrArg (List.cons _) (ih hkept hnext ?_)
          rw [hdraw]
          show Shadows quota
            ((state.registry.request state.now client).2.find? client) _
          rw [hview]
          rfl
      | other other hother =>
          have hview := find?_request state.registry state.now other client
          rw [if_neg hother.symm] at hview
          rw [touches_other rest hother, visits_other rest hother]
          refine ih hkept hnext ?_
          show Shadows quota
            ((state.registry.request state.now other).2.find? client) _
          rw [hview]
          exact hshadow
      | sweep =>
          refine congrArg (List.cons _) (ih hkept hnext ?_)
          show Shadows quota ((state.registry.sweep state.now).find? client) _
          rw [find?_sweep state.now client hs.distinct, hsame]
          refine shadows_sweep hquota (fun bucket hfind => ?_) hshadow state.now
          exact hsame ▸ hs.sound client bucket hfind
      | wait nanos => exact ih hkept hnext hshadow

/-- The calls of others are no visits. -/
theorem visits_filter (client : String) (calls : List Call) :
    ∀ now, visits client now (calls.filter (Call.concerns client))
      = visits client now calls := by
  induction calls with
  | nil =>
      intro now
      rfl
  | cons call rest ih =>
      intro now
      cases call using Call.cases_for client with
      | own => simp [Call.concerns, visits, ih]
      | other other hother => simp [Call.concerns, visits, hother, ih]
      | sweep => exact congrArg (List.cons _) (ih now)
      | wait nanos => exact ih (now + nanos)

-- ========================================================= the theorem

/-- A client is answered as if it had a bucket for itself that is never
removed, fed with its own requests and the instants of the sweeps; so
leaving out the requests of all others changes none of its answers. -/
theorem touches_eq_lone_replay (hquota : quota.Usable) (client : String)
    (calls : List Call) :
    touches client ((Timed.start quota).history calls)
        = replay quota none (visits client 0 calls)
      ∧ touches client ((Timed.start quota).history
            (calls.filter (Call.concerns client)))
        = touches client ((Timed.start quota).history calls) := by
  have hlone : ∀ calls, touches client ((Timed.start quota).history calls)
      = replay quota none (visits client 0 calls) := fun calls =>
    touches_eq_replay hquota calls rfl (sound_start quota) (fun _ h => nomatch h)
  refine ⟨hlone calls, ?_⟩
  rw [hlone, hlone, visits_filter]

/-- The sweep removes the client's bucket, its next request makes another
one, and the lone bucket answers no differently. -/
theorem touches_eq_lone_replay_of_removed :
    let quota : Quota := ⟨.ofNat 10, 2⟩
    let before := [.request "a", .request "b", .wait 200000000, .sweep]
    let after := [.request "a", .request "b", .request "a", .request "a"]
    quota.Usable
      ∧ ((Timed.start quota).run before).2.registry.contains "a" = false
      ∧ touches "a" ((Timed.start quota).history (before ++ after))
        = replay quota none (visits "a" 0 (before ++ after)) := by
  intro quota before after
  have hquota : quota.Usable := ⟨by decide +kernel, by decide +kernel, by decide⟩
  refine ⟨hquota, by decide +kernel, ?_⟩
  exact (touches_eq_lone_replay hquota "a" (before ++ after)).1

end Turnstile.Registry
