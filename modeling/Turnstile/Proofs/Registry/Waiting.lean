/-
Waiting longer never hurts.

Whoever asks later finds no fewer tokens (`waiting_never_hurts`). The count after a
refill grows with the count before it and with the instant (`Bucket.refill_mono`),
because each rounding on the way keeps the order: the seconds of the span, where a
full second outweighs every rest (`rank_secondsOf_mono`), the product with the rate,
the sum, and the cap.

# Without a common clock

Callers and sweeps read the clock before they get hold of a bucket, so it may meet
their instants in any order. `Unclocked` are the registries that this can lead to:
each turn (Registry/Crowd.lean) is at an instant of its own, which may be earlier
than the bucket's. No turn looks at more than one bucket, and what it leaves is
drawn from, refilled or new, so the buckets stay sound although some may be credited
beyond what the next caller reads (`Unclocked.sound`). All registries that a common
clock can lead to are among them (`Reachable.unclocked`).

Chain (registry): Bucket/Sound.lean, Registry/Crowd.lean and Registry/Patience.lean
below; a top statement of the library.
-/
import Mathlib
import Turnstile.Proofs.Registry.Crowd
import Turnstile.Proofs.Registry.Patience

namespace Turnstile.Registry

variable {quota : Quota} {registry : Registry} {crowd next : Crowd} {client : String}
  {bucket : Bucket} {now early late : ℕ}

-- ====================================================== any order of instants

/-- A registry on which turns and sweeps were at work, each at an instant of its
own. -/
inductive Unclocked (quota : Quota) : Registry → Prop
  | empty : Unclocked quota (.empty quota)
  | turn {crowd next : Crowd} {now : ℕ} (before : Unclocked quota crowd.registry)
      (turn : crowd.Turn now next) : Unclocked quota next.registry
  | sweep {registry : Registry} (before : Unclocked quota registry) (now : ℕ) :
      Unclocked quota (registry.sweep now)

/-- A request is a turn: it is the one that makes the bucket unless it is there. -/
theorem Unclocked.request (before : Unclocked quota registry) (now : ℕ) (client : String) :
    Unclocked quota (registry.request now client).2 := by
  have hturn : Crowd.Turn now ⟨registry, [] ++ .missing client :: []⟩
      ⟨(registry.request now client).2, _⟩ := .enter registry [] []
  exact .turn before hturn

/-- What a turn leaves of a bucket: the bucket as it was, drawn from or refilled. -/
theorem find?_turn (hturn : crowd.Turn now next)
    (hfind : next.registry.find? client = some bucket) :
    crowd.registry.find? client = some bucket
      ∨ bucket = ((crowd.registry.bucketOf now client).draw crowd.registry.quota now).2
      ∨ ∃ old, crowd.registry.find? client = some old
        ∧ bucket = old.refill crowd.registry.quota now := by
  obtain hsame | ⟨asking, hasked⟩ | ⟨visited, hvisited⟩ := registry_turn hturn
  · rw [hsame] at hfind
    exact .inl hfind
  · rw [hasked, find?_request] at hfind
    split at hfind
    case isTrue hown =>
      subst hown
      exact .inr (.inl (Option.some.inj hfind).symm)
    case isFalse => exact .inl hfind
  · rw [hvisited] at hfind
    exact (find?_visit_eq_some hfind).imp_right .inr

theorem nodup_clients_turn (hdistinct : crowd.registry.clients.Nodup)
    (hturn : crowd.Turn now next) : next.registry.clients.Nodup := by
  obtain hsame | ⟨asking, hasked⟩ | ⟨visited, hvisited⟩ := registry_turn hturn
  · rwa [hsame]
  · rw [hasked]
    exact nodup_clients_request now asking hdistinct
  · rw [hvisited]
    exact hdistinct.sublist (clients_visit_sublist crowd.registry now visited)

/-- Whatever the instants, the clients are distinct and the buckets are sound. -/
theorem Unclocked.sound (hquota : quota.Usable) (hreach : Unclocked quota registry) :
    registry.quota = quota ∧ registry.clients.Nodup
      ∧ ∀ client bucket, registry.find? client = some bucket → bucket.Sound quota := by
  induction hreach with
  | empty => exact ⟨rfl, List.nodup_nil, fun _ _ hfind => nomatch hfind⟩
  | turn before turn ih =>
      obtain ⟨rfl, hdistinct, hsound⟩ := ih
      refine ⟨quota_turn turn, nodup_clients_turn hdistinct turn,
        fun client bucket hfind => ?_⟩
      rcases find?_turn turn hfind with hsame | rfl | ⟨old, hold, rfl⟩
      · exact hsound client bucket hsame
      · refine Bucket.Sound.draw hquota ?_ _
        unfold bucketOf
        cases hfound : Registry.find? _ client with
        | none => exact Bucket.sound_full _ _
        | some found => exact hsound client found hfound
      · exact (hsound client old hold).refill hquota _
  | sweep before now ih =>
      obtain ⟨rfl, hdistinct, hsound⟩ := ih
      refine ⟨rfl, nodup_clients_sweep now hdistinct, fun client bucket hfind => ?_⟩
      obtain ⟨old, hold, rfl, -⟩ := find?_sweep_eq_some hdistinct hfind
      exact (hsound client old hold).refill hquota now

/-- A common clock is one of the orders. -/
theorem Reachable.unclocked {state : Timed} (hreach : Reachable quota state) :
    Unclocked quota state.registry := by
  induction hreach with
  | start => exact .empty
  | @call state before call ih =>
      cases call with
      | request client => exact ih.request state.now client
      | sweep => exact ih.sweep state.now
      | wait nanos => exact ih
  | crowd before tasks turns ih =>
      induction turns with
      | refl => exact ih
      | tail _ turn hnext => exact hnext.turn turn

-- ================================================================ the theorem

/-- Of two instants, whether before the bucket's or after it, the later one finds no
fewer tokens, and so does a bucket that had more. A request that is allowed at the
earlier instant is allowed at the later one. -/
theorem waiting_never_hurts (hquota : quota.Usable) (hreach : Unclocked quota registry)
    (hle : early ≤ late) :
    (∀ client bucket, registry.find? client = some bucket →
      (bucket.refill quota early).tokens ≤ (bucket.refill quota late).tokens
        ∧ ∀ richer : Bucket, richer.creditedAt = bucket.creditedAt →
          bucket.tokens ≤ richer.tokens →
          (bucket.refill quota early).tokens ≤ (richer.refill quota early).tokens)
      ∧ ∀ client, (registry.request early client).1 = .allowed →
        (registry.request late client).1 = .allowed := by
  obtain ⟨rfl, -, hsound⟩ := hreach.sound hquota
  have hlater : ∀ client bucket, registry.find? client = some bucket →
      (bucket.refill registry.quota early).tokens
        ≤ (bucket.refill registry.quota late).tokens := by
    intro client bucket hfind
    have hnonneg := (hsound client bucket hfind).nonneg
    exact Bucket.refill_mono hquota hnonneg ((hnonneg.le_iff hnonneg).mpr le_rfl) le_rfl hle
  refine ⟨fun client bucket hfind => ⟨hlater client bucket hfind, ?_⟩, ?_⟩
  · intro richer hsince hless
    exact Bucket.refill_mono hquota (hsound client bucket hfind).nonneg hless hsince.le le_rfl
  · intro client hallowed
    rw [request_allowed_iff] at hallowed ⊢
    unfold bucketOf at hallowed ⊢
    cases hfind : registry.find? client with
    | none => exact Bucket.one_le_refill_full hquota late
    | some bucket =>
        rw [hfind] at hallowed
        exact Bucket.one_spec.1.le_trans hallowed (hlater client bucket hfind)

/-- The second request, with an older instant, has moved the bucket back by a second.
It has a token again a third of a second after that, and 2^53 seconds later still. -/
theorem waiting_never_hurts_of_stale_instant :
    let quota : Quota := ⟨.ofNat 3, 1⟩
    let used := ((Registry.empty quota).request 2000000000 "a").2
    let registry := (used.request 1000000000 "a").2
    let bucket : Bucket := ⟨0, 1000000000⟩
    let late := 9007199254740993999999999
    quota.Usable ∧ Unclocked quota registry ∧ registry.find? "a" = some bucket
      ∧ 1333333334 ≤ late
      ∧ (bucket.refill quota 1333333334).tokens ≤ (bucket.refill quota late).tokens
      ∧ (registry.request 1333333334 "a").1 = .allowed
      ∧ (registry.request late "a").1 = .allowed := by
  intro quota used registry bucket late
  have hquota : quota.Usable := ⟨by decide +kernel, by decide +kernel, by decide⟩
  have hreach : Unclocked quota registry :=
    (Unclocked.empty.request 2000000000 "a").request 1000000000 "a"
  have hfind : registry.find? "a" = some bucket := by decide +kernel
  have hle : 1333333334 ≤ late := by decide
  have hallowed : (registry.request 1333333334 "a").1 = .allowed := by decide +kernel
  obtain ⟨htokens, hrequests⟩ := waiting_never_hurts hquota hreach hle
  exact ⟨hquota, hreach, hfind, hle, (htokens "a" bucket hfind).1, hallowed,
    hrequests "a" hallowed⟩

end Turnstile.Registry
