/-
Who a sweep removes, and that nobody notices.

A sweep removes the clients whose bucket is full once it is refilled, and
nobody else (`mem_removed_iff`); all that it leaves is below the burst. A
second sweep at the same instant finds the buckets as the first one left them,
to the bit (`sweep_sweep`), because a second refill changes nothing.

# Why nobody notices

`worth` is what a client has at an instant, and a request looks at nothing else.
A sweep changes nobody's worth (`worth_sweep`). So with and without the sweep
everybody is worth the same (`Alike`), is answered alike, and stays alike,
until the clock goes on (`Alike.run`).

At one instant no call makes anybody worth more (`worth_run_le`). Who was
allowed is worth a token less than the burst at most, so no sweep at that
instant removes it (`not_mem_removed_of_worth_lt`).

Chain (registry): Registry/Crowd.lean and Registry/Tracked.lean below.
-/
import Mathlib
import Turnstile.Proofs.Registry.Crowd
import Turnstile.Proofs.Registry.Tracked

namespace Turnstile.Registry

/-- The decision of a call, if it is a request. -/
def Outcome.admission? : Outcome → Option Admission
  | .answered admission => some admission
  | _ => none

variable {quota : Quota} {registry : Registry} {state twin : Timed} {client : String}
  {now : ℕ} {call : Call} {calls rest : List Call} {bucket : Bucket}

-- ========================================================= who is removed

/-- A tracked client is worth the count of its bucket, and it is worth the burst
exactly if the bucket is full. -/
theorem isPartial_eq_false_iff_worth (hquota : registry.quota.Usable)
    (hs : (Timed.mk registry now).Sound) (hfind : registry.find? client = some bucket) :
    (bucket.refill registry.quota now).isPartial registry.quota = false
      ↔ registry.worth now client = registry.quota.burst.toNat := by
  have hb := (hs.sound client bucket hfind).refill hquota now
  rw [worth_of_find? hfind]
  constructor
  · intro hfull
    rw [(hb.isPartial_eq_false_iff hquota).mp hfull]
    exact registry.quota.capacity_magnitude
  · intro hburst
    by_contra hpartial
    have hless := hb.magnitude_lt_of_isPartial (Bool.eq_true_of_not_eq_false hpartial)
    exact hless.ne hburst

/-- The removed clients are the tracked ones that are worth the burst. -/
theorem mem_removed_iff (hquota : registry.quota.Usable)
    (hs : (Timed.mk registry now).Sound) :
    client ∈ registry.removed now
      ↔ registry.contains client = true
        ∧ registry.worth now client = registry.quota.burst.toNat := by
  unfold removed
  rw [List.mem_filter, ← contains_iff_mem_clients]
  refine and_congr_right fun htracked => ?_
  obtain ⟨bucket, hfind⟩ := Option.isSome_iff_exists.mp htracked
  rw [← isPartial_eq_false_iff_worth hquota hs hfind, contains,
    find?_sweep now client hs.distinct, hfind, Option.map_some, Option.filter_some]
  cases (bucket.refill registry.quota now).isPartial registry.quota <;> simp

/-- What a sweep leaves is an old bucket, refilled, and below the burst. -/
theorem find?_sweep_lt (hquota : registry.quota.Usable)
    (hs : (Timed.mk registry now).Sound)
    (hfind : (registry.sweep now).find? client = some bucket) :
    ∃ old count, registry.find? client = some old
      ∧ bucket = old.refill registry.quota now
      ∧ bucket.tokens.toRat? = some count ∧ count < registry.quota.burst.toNat := by
  obtain ⟨old, hold, rfl, hpartial⟩ := find?_sweep_eq_some hs.distinct hfind
  have hb := (hs.sound client old hold).refill hquota now
  exact ⟨old, _, hold, rfl, hb.nonneg.toRat?_eq hb.isFinite,
    hb.magnitude_lt_of_isPartial hpartial⟩

theorem size_sweep_add (hdistinct : registry.clients.Nodup) (now : ℕ) :
    (registry.sweep now).size + (registry.removed now).length = registry.size := by
  rw [← sweepCount_eq_length_removed hdistinct now, Nat.add_comm]
  exact sweepCount_add_size registry now

/-- A second sweep at one instant changes nothing. -/
theorem sweep_sweep (hquota : registry.quota.Usable)
    (hs : (Timed.mk registry now).Sound) :
    (registry.sweep now).sweep now = registry.sweep now := by
  have hkept : ∀ entry ∈ (registry.sweep now).buckets,
      (entry.1, entry.2.refill registry.quota now) = entry
        ∧ entry.2.isPartial registry.quota = true := by
    intro entry hmem
    rw [buckets_sweep] at hmem
    obtain ⟨hrefilled, hpartial⟩ := List.mem_filter.mp hmem
    obtain ⟨⟨client, old⟩, hold, rfl⟩ := List.mem_map.mp hrefilled
    have hb := hs.sound client old (find?_of_mem hs.distinct hold)
    refine ⟨?_, hpartial⟩
    exact congrArg (Prod.mk client) (hb.refill_refill hquota now)
  have hbuckets : ((registry.sweep now).sweep now).buckets = (registry.sweep now).buckets := by
    rw [buckets_sweep]
    show List.filter _ ((registry.sweep now).buckets.map fun entry =>
      (entry.1, entry.2.refill registry.quota now)) = _
    rw [List.map_congr_left fun entry hmem => (hkept entry hmem).1, List.map_id']
    exact List.filter_eq_self.mpr fun entry hmem => (hkept entry hmem).2
  exact congrArg (Registry.mk registry.quota) hbuckets

theorem sweepCount_sweep (hquota : registry.quota.Usable)
    (hs : (Timed.mk registry now).Sound) : (registry.sweep now).sweepCount now = 0 := by
  have hcount := sweepCount_add_size (registry.sweep now) now
  rw [sweep_sweep hquota hs] at hcount
  omega

-- ==================================================== while the clock stands

/-- No time passes in calls that end at the instant at which they begin. -/
theorem still_of_run_cons (hstill : (state.run (call :: rest)).2.now = state.now) :
    (state.perform call).2.now = state.now
      ∧ ((state.perform call).2.run rest).2.now = (state.perform call).2.now := by
  have hfirst := now_le_perform state call
  have hrest := now_le_run (state.perform call).2 rest
  rw [run_cons] at hstill
  omega

/-- A sweep changes nobody's worth. -/
theorem worth_sweep (hquota : registry.quota.Usable)
    (hs : (Timed.mk registry now).Sound) (client : String) :
    (registry.sweep now).worth now client = registry.worth now client :=
  worth_of_refilled hquota hs rfl (find?_sweep now client hs.distinct)

/-- A client is allowed exactly if it is worth a token, and then pays one. -/
theorem request_of_worth (hquota : registry.quota.Usable)
    (hs : (Timed.mk registry now).Sound) (client : String) :
    (registry.request now client).1
        = (if 1 ≤ registry.worth now client then .allowed
          else .denied registry.quota.retryAfter)
      ∧ ∀ other, (registry.request now client).2.worth now other
        = if other = client ∧ 1 ≤ registry.worth now client then
            registry.worth now client - 1
          else registry.worth now other := by
  have hothers : ∀ other, other ≠ client →
      (registry.request now client).2.worth now other = registry.worth now other :=
    fun other hother => worth_request_other hother
  rcases worth_request hquota hs client with ⟨hallowed, hless⟩ | ⟨hdenied, hnone, hsame⟩
  · have hone : 1 ≤ registry.worth now client := by
      have hleft := worth_nonneg (registry.request now client).2 now client
      rw [hless] at hleft
      linarith
    rw [if_pos hone]
    refine ⟨hallowed, fun other => ?_⟩
    by_cases hown : other = client
    · rw [if_pos ⟨hown, hone⟩, hown, hless]
    · rw [if_neg (fun h => hown h.1), hothers other hown]
  · rw [if_neg hnone.not_ge]
    refine ⟨hdenied, fun other => ?_⟩
    rw [if_neg (fun h => hnone.not_ge h.2)]
    by_cases hown : other = client
    · rw [hown, hsame]
    · exact hothers other hown

/-- At its own instant no call makes anybody worth more. -/
theorem worth_perform_le (hquota : state.registry.quota.Usable) (hs : state.Sound)
    (hstill : (state.perform call).2.now = state.now) (client : String) :
    (state.perform call).2.registry.worth state.now client
      ≤ state.registry.worth state.now client := by
  cases call with
  | request asking =>
      have hworth := (request_of_worth hquota hs asking).2 client
      show (state.registry.request state.now asking).2.worth state.now client ≤ _
      rw [hworth]
      split
      case isTrue hown =>
        rw [hown.1]
        exact sub_le_self _ one_pos.le
      case isFalse => exact le_rfl
  | sweep => exact (worth_sweep hquota hs client).le
  | wait nanos =>
      have hnanos : nanos = 0 := Nat.add_eq_left.mp hstill
      subst hnanos
      exact le_rfl

theorem worth_run_le (hquota : state.registry.quota.Usable) (hs : state.Sound)
    (hstill : (state.run calls).2.now = state.now) (client : String) :
    (state.run calls).2.registry.worth state.now client
      ≤ state.registry.worth state.now client := by
  induction calls generalizing state with
  | nil => exact le_rfl
  | cons call rest ih =>
      obtain ⟨hcall, hrest⟩ := still_of_run_cons hstill
      have hnext := hs.perform hquota call
      have hkept := quota_perform state call
      have hlater := ih (hkept ▸ hquota) hnext hrest
      rw [hcall] at hlater
      exact hlater.trans (worth_perform_le hquota hs hcall client)

/-- Who is below the burst is not removed before the clock goes on. -/
theorem not_mem_removed_of_worth_lt (hquota : state.registry.quota.Usable)
    (hs : state.Sound)
    (hless : state.registry.worth state.now client < state.registry.quota.burst.toNat)
    (hstill : (state.run calls).2.now = state.now) :
    client ∉ (state.run calls).2.registry.removed (state.run calls).2.now := by
  obtain ⟨hlater, hsame⟩ := hs.run hquota calls
  have hkept := worth_run_le hquota hs hstill client
  intro hremoved
  have hburst := ((mem_removed_iff (hsame ▸ hquota) hlater).mp hremoved).2
  rw [hsame, hstill] at hburst
  exact hless.not_ge (hburst ▸ hkept)

/-- Who was allowed is below the burst. -/
theorem worth_lt_of_allowed (hquota : registry.quota.Usable)
    (hs : (Timed.mk registry now).Sound)
    (hallowed : (registry.request now client).1 = .allowed) :
    (registry.request now client).2.worth now client < registry.quota.burst.toNat := by
  obtain ⟨hanswer, hworth⟩ := request_of_worth hquota hs client
  have hcapped : registry.worth now client ≤ registry.quota.burst.toNat := by
    rw [← worth_bucketOf hquota]
    exact ((hs.bucketOf client).refill hquota now).magnitude_le
  rw [hallowed] at hanswer
  split at hanswer
  case isTrue hone =>
    rw [hworth, if_pos ⟨rfl, hone⟩]
    linarith
  case isFalse => cases hanswer

-- ============================================================== two registries

/-- Everybody is worth the same in both registries. -/
structure Alike (state twin : Timed) : Prop where
  now : twin.now = state.now
  quota : twin.registry.quota = state.registry.quota
  worth : ∀ client, twin.registry.worth twin.now client
    = state.registry.worth state.now client

theorem alike_sweep (hquota : state.registry.quota.Usable) (hs : state.Sound) :
    Alike state (state.perform .sweep).2 :=
  ⟨rfl, rfl, worth_sweep hquota hs⟩

/-- Where everybody is worth the same, a call is answered alike and keeps it
so, unless time passes. -/
theorem Alike.perform (hquota : state.registry.quota.Usable) (hs : state.Sound)
    (ht : twin.Sound) (h : Alike state twin)
    (hstill : (state.perform call).2.now = state.now) :
    (twin.perform call).1.admission? = (state.perform call).1.admission?
      ∧ Alike (state.perform call).2 (twin.perform call).2 := by
  have hquota' : twin.registry.quota.Usable := h.quota ▸ hquota
  cases call with
  | request asking =>
      obtain ⟨hanswer, hnext⟩ := request_of_worth hquota hs asking
      obtain ⟨hanswer', hnext'⟩ := request_of_worth hquota' ht asking
      rw [h.worth, h.quota, ← hanswer] at hanswer'
      refine ⟨congrArg some hanswer', h.now, h.quota, fun client => ?_⟩
      have hworth := hnext' client
      rw [h.worth, h.worth, ← hnext] at hworth
      exact hworth
  | sweep =>
      refine ⟨rfl, h.now, h.quota, fun client => ?_⟩
      exact ((worth_sweep hquota' ht client).trans (h.worth client)).trans
        (worth_sweep hquota hs client).symm
  | wait nanos =>
      have hnanos : nanos = 0 := Nat.add_eq_left.mp hstill
      subst hnanos
      exact ⟨rfl, h.now, h.quota, h.worth⟩

/-- As long as the clock stands, everybody is answered alike in both
registries. -/
theorem Alike.run (hquota : state.registry.quota.Usable) (hs : state.Sound)
    (ht : twin.Sound) (h : Alike state twin)
    (hstill : (state.run calls).2.now = state.now) :
    (twin.run calls).1.map Outcome.admission?
      = (state.run calls).1.map Outcome.admission? := by
  induction calls generalizing state twin with
  | nil => rfl
  | cons call rest ih =>
      obtain ⟨hcall, hrest⟩ := still_of_run_cons hstill
      obtain ⟨hanswer, hnext⟩ := h.perform hquota hs ht hcall
      have hlater := ih ((quota_perform state call).symm ▸ hquota) (hs.perform hquota call)
        (ht.perform (h.quota ▸ hquota) call) hnext hrest
      show (twin.perform call).1.admission? :: _ = (state.perform call).1.admission? :: _
      rw [hanswer]
      exact congrArg (List.cons _) hlater

-- ========================================================== the theorem

theorem reachable_run (quota : Quota) (calls : List Call) :
    Reachable quota ((Timed.start quota).run calls).2 :=
  run_induction (motive := Reachable quota) (fun _ call hreach => .call hreach call) calls
    .start

/-- What a sweep does to a registry that can be reached. It removes the clients
that are tracked and whose count at its instant is the burst, and answers how
many these are. What it leaves are old buckets, refilled, below the burst. A
second sweep removes nobody and changes nothing. A client that was allowed is not
removed before the clock goes on, and until then all requests, whoever makes
them, are answered as if there had been no sweep. -/
theorem sweep_removes_full (hquota : quota.Usable) (hreach : Reachable quota state) :
    let removed := state.registry.removed state.now
    let swept := (state.perform .sweep).2
    removed.Nodup
      ∧ (∀ client, client ∈ removed ↔ state.registry.contains client = true
        ∧ (state.registry.countAt state.now client).toRat? = some ↑quota.burst.toNat)
      ∧ (state.perform .sweep).1 = .removed removed.length
      ∧ swept.registry.size + removed.length = state.registry.size
      ∧ (∀ client bucket, swept.registry.find? client = some bucket →
        ∃ old count, state.registry.find? client = some old
          ∧ bucket = old.refill quota state.now
          ∧ bucket.tokens.toRat? = some count ∧ count < quota.burst.toNat)
      ∧ swept.perform .sweep = (.removed 0, swept)
      ∧ (∀ client calls, let later := ((state.perform (.request client)).2.run calls).2
        (state.registry.request state.now client).1 = .allowed →
        later.now = state.now → client ∉ later.registry.removed later.now)
      ∧ ∀ calls, (state.run calls).2.now = state.now →
        (swept.run calls).1.map Outcome.admission?
          = (state.run calls).1.map Outcome.admission? := by
  intro removed swept
  obtain ⟨hs, rfl⟩ := hreach.sound hquota
  have hagain : (state.registry.sweep state.now).sweep state.now
      = state.registry.sweep state.now := sweep_sweep hquota hs
  refine ⟨hs.distinct.filter _, fun client => ?_, ?_, size_sweep_add hs.distinct state.now,
    fun client bucket hfind => find?_sweep_lt hquota hs hfind, ?_,
    fun client calls => ?_, fun calls hstill => ?_⟩
  · rw [hs.countAt hquota client, Option.some.injEq]
    exact mem_removed_iff hquota hs
  · exact congrArg Outcome.removed (sweepCount_eq_length_removed hs.distinct state.now)
  · show (Outcome.removed ((state.registry.sweep state.now).sweepCount state.now),
      Timed.mk ((state.registry.sweep state.now).sweep state.now) state.now) = _
    rw [sweepCount_sweep hquota hs, hagain]
    rfl
  · intro later hallowed hstill
    exact not_mem_removed_of_worth_lt hquota (hs.perform hquota (.request client))
      (worth_lt_of_allowed hquota hs hallowed) hstill
  · exact (alike_sweep hquota hs).run hquota hs (hs.perform hquota .sweep) hstill

/-- One client has its bucket full again, another has just been allowed, and a
third has a token and a half. The sweep removes the first, and the requests that
follow are answered as without it. -/
theorem sweep_removes_full_of_three :
    let quota : Quota := ⟨.ofNat 10, 2⟩
    let before := [.request "a", .request "c", .request "c", .wait 150000000, .request "b"]
    let state := ((Timed.start quota).run before).2
    let swept := (state.perform .sweep).2
    quota.Usable ∧ Reachable quota state
      ∧ state.registry.removed state.now = ["a"]
      ∧ (state.perform .sweep).1 = .removed 1
      ∧ swept.perform .sweep = (.removed 0, swept)
      ∧ (swept.run [.request "a", .request "c", .request "c"]).1.map Outcome.admission?
        = [some .allowed, some .allowed, some (.denied quota.retryAfter)] := by
  intro quota before state swept
  have hquota : quota.Usable := ⟨by decide +kernel, by decide +kernel, by decide⟩
  have hreach : Reachable quota state := reachable_run quota before
  have hremoved : state.registry.removed state.now = ["a"] := by decide +kernel
  obtain ⟨-, -, hcount, -, -, hagain, -, halike⟩ := sweep_removes_full hquota hreach
  rw [hremoved] at hcount
  refine ⟨hquota, hreach, hremoved, hcount, hagain, ?_⟩
  rw [halike _ (by decide +kernel)]
  decide +kernel

end Turnstile.Registry
