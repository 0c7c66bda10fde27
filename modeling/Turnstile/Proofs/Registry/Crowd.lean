/-
Callers and sweeps that come at once share the tokens exactly.

However the turns of any number of callers and sweeps are interleaved at
one instant, the calls for a client that are done have got as many tokens
as there were whole ones, or were all allowed (`approved_eq_min`).

# The invariant

`worth` is what a client has at the instant: the count of its bucket,
refilled, or the burst if there is none. In every turn

- the worth and the approvals together stay what they were, so no token is
  lost, spent twice or made anew (`Balanced.paid`);
- a call is denied only once the worth is less than a token, and from then
  on it stays so (`Balanced.spent`).

A refill at the instant at which the bucket is credited already changes
nothing (`Bucket.Sound.refill_magnitude_of_le`), so a sweep changes no
worth: it removes a bucket at the burst, and who is not tracked is worth
the burst (`worth_of_refilled`). Whoever makes a bucket after somebody else did
finds that one, since both draw from what is there (`drawFrom_bucketOf`).

Turns are no more than the calls of Registry.lean taken apart: a sweep that
has been to every client has done what a sweep does at once
(`find?_visits_eq_sweep`), and no call is ever stuck (`exists_turn`).

Chain (registry): Registry/Crowd.lean and Registry/Invariant.lean below.
-/
import Mathlib
import Turnstile.Registry.Crowd
import Turnstile.Proofs.Registry.Invariant

namespace Turnstile.Registry

open Relation (ReflTransGen)

variable {quota : Quota} {registry : Registry} {state : Timed} {crowd later : Crowd}
  {client other : String} {bucket : Bucket} {now : ℕ}

-- ======================================================== under a lock

theorem drawFrom_bucketOf (registry : Registry) (now : ℕ) (client : String) :
    registry.drawFrom now client (registry.bucketOf now client)
      = registry.request now client := rfl

theorem drawFrom_of_find? (hfind : registry.find? client = some bucket) :
    registry.drawFrom now client bucket = registry.request now client := by
  rw [← drawFrom_bucketOf, bucketOf, hfind, Option.getD_some]

theorem lookup_filter_ne (client other : String) (buckets : List (String × Bucket)) :
    (buckets.filter (·.1 ≠ client)).lookup other
      = if other = client then none else buckets.lookup other := by
  induction buckets with
  | nil => simp
  | cons entry rest ih =>
      by_cases hown : entry.1 = client
      · rw [List.filter_cons_of_neg (by simpa using hown), ih, lookup_entry]
        by_cases hother : other = client
        · rw [if_pos hother, if_pos hother]
        · rw [if_neg hother, if_neg hother, if_neg (hown ▸ hother)]
      · rw [List.filter_cons_of_pos (by simpa using hown), lookup_entry,
          lookup_entry, ih]
        by_cases hother : other = client
        · rw [if_pos hother, if_pos hother, if_neg (hother ▸ Ne.symm hown)]
        · rw [if_neg hother, if_neg hother]

/-- A visit does to one client what a sweep does to all. -/
theorem find?_visit (registry : Registry) (now : ℕ) (client other : String) :
    (registry.visit now client).find? other
      = if other = client then
          ((registry.find? client).map (·.refill registry.quota now)).filter
            (·.isPartial registry.quota)
        else registry.find? other := by
  unfold visit
  cases hfind : registry.find? client with
  | none =>
      by_cases hown : other = client
      · rw [if_pos hown, hown]
        exact hfind
      · rw [if_neg hown]
  | some bucket =>
      dsimp only
      rw [Option.map_some, Option.filter_some, find?]
      by_cases hpartial : (bucket.refill registry.quota now).isPartial
        registry.quota = true
      · rw [if_pos hpartial, if_pos hpartial, lookup_put]
        rfl
      · rw [if_neg hpartial, if_neg hpartial, lookup_filter_ne]
        rfl

/-- After a visit a bucket is as it was, or refilled. -/
theorem find?_visit_eq_some {found : Bucket}
    (hfind : (registry.visit now client).find? other = some found) :
    registry.find? other = some found
      ∨ ∃ old, registry.find? other = some old ∧ found = old.refill registry.quota now := by
  rw [find?_visit] at hfind
  split at hfind
  case isFalse => exact .inl hfind
  case isTrue hown =>
    obtain ⟨hrefilled, -⟩ := Option.filter_eq_some_iff.mp hfind
    obtain ⟨old, hold, rfl⟩ := Option.map_eq_some_iff.mp hrefilled
    exact .inr ⟨old, hown ▸ hold, rfl⟩

theorem quota_visit (registry : Registry) (now : ℕ) (client : String) :
    (registry.visit now client).quota = registry.quota := by
  unfold visit
  split <;> rfl

theorem clients_visit_sublist (registry : Registry) (now : ℕ) (client : String) :
    (registry.visit now client).clients.Sublist registry.clients := by
  unfold visit
  cases hfind : registry.find? client with
  | none => exact List.Sublist.refl _
  | some bucket =>
      dsimp only
      split
      · have htracked : client ∈ registry.buckets.map Prod.fst := by
          obtain ⟨front, back, hsplit, -⟩ := List.lookup_eq_some_iff.mp hfind
          rw [hsplit]
          simp
        unfold clients
        rw [keys_put, if_pos htracked]
      · exact List.filter_sublist.map _

/-- Visits to all clients, one after the other, are a sweep. -/
theorem find?_visits_eq_sweep (hdistinct : registry.clients.Nodup)
    (client : String) :
    (registry.clients.foldl (·.visit now ·) registry).find? client
      = (registry.sweep now).find? client := by
  have hvisits : ∀ (list : List String) (registry : Registry), list.Nodup →
      (list.foldl (·.visit now ·) registry).find? client
        = if client ∈ list then
            ((registry.find? client).map (·.refill registry.quota now)).filter
              (·.isPartial registry.quota)
          else registry.find? client := by
    intro list
    induction list with
    | nil =>
        intro registry _
        rfl
    | cons first rest ih =>
        intro registry hnodup
        obtain ⟨hfirst, hrest⟩ := List.nodup_cons.mp hnodup
        rw [List.foldl_cons, ih _ hrest, find?_visit, quota_visit]
        by_cases hown : client = first
        · subst hown
          simp [hfirst]
        · simp [hown]
  rw [hvisits _ _ hdistinct, find?_sweep now client hdistinct]
  by_cases htracked : client ∈ registry.clients
  · rw [if_pos htracked]
  · have hnone : registry.find? client = none :=
      lookup_eq_none_of_not_mem htracked
    rw [if_neg htracked, hnone]
    rfl

-- ==================================================== sound all the time

theorem Timed.Sound.visit (hquota : registry.quota.Usable)
    (hs : (Timed.mk registry now).Sound) (client : String) :
    (Timed.mk (registry.visit now client) now).Sound := by
  refine ⟨hs.distinct.sublist (clients_visit_sublist registry now client), ?_, ?_⟩
  · intro other found hfind
    show found.Sound (registry.visit now client).quota
    rw [quota_visit]
    rcases find?_visit_eq_some hfind with hold | ⟨old, hold, rfl⟩
    · exact hs.sound other found hold
    · exact (hs.sound other old hold).refill hquota now
  · intro other found hfind
    rcases find?_visit_eq_some hfind with hold | ⟨old, hold, rfl⟩
    · exact hs.credited other found hold
    · exact Nat.le_refl _

/-- A turn leaves the registry alone, or is a request or a visit to it. -/
theorem registry_turn (hturn : crowd.Turn now later) :
    later.registry = crowd.registry
      ∨ (∃ client, later.registry = (crowd.registry.request now client).2)
      ∨ ∃ client, later.registry = crowd.registry.visit now client := by
  cases hturn with
  | @hit client bucket registry front back there =>
      rw [drawFrom_of_find? there]
      exact .inr (.inl ⟨client, rfl⟩)
  | miss registry front back absent => exact .inl rfl
  | @enter client registry front back => exact .inr (.inl ⟨client, rfl⟩)
  | @visit client bucket visited registry front back there new =>
      exact .inr (.inr ⟨client, rfl⟩)

theorem quota_turn (hturn : crowd.Turn now later) :
    later.registry.quota = crowd.registry.quota := by
  obtain hsame | ⟨client, hasked⟩ | ⟨client, hvisited⟩ := registry_turn hturn
  · rw [hsame]
  · rw [hasked]
    rfl
  · rw [hvisited, quota_visit]

/-- A turn keeps a registry sound, and its quota as it is. -/
theorem sound_turn (hquota : crowd.registry.quota.Usable)
    (hs : (Timed.mk crowd.registry now).Sound) (hturn : crowd.Turn now later) :
    (Timed.mk later.registry now).Sound
      ∧ later.registry.quota = crowd.registry.quota := by
  refine ⟨?_, quota_turn hturn⟩
  obtain hsame | ⟨client, hasked⟩ | ⟨client, hvisited⟩ := registry_turn hturn
  · rw [hsame]
    exact hs
  · rw [hasked]
    exact hs.perform hquota (.request client)
  · rw [hvisited]
    exact hs.visit hquota client

theorem sound_turns (hquota : crowd.registry.quota.Usable)
    (hs : (Timed.mk crowd.registry now).Sound)
    (hturns : ReflTransGen (Crowd.Turn now) crowd later) :
    (Timed.mk later.registry now).Sound
      ∧ later.registry.quota = crowd.registry.quota := by
  induction hturns with
  | refl => exact ⟨hs, rfl⟩
  | tail _ hturn ih =>
      obtain ⟨hmid, hsame⟩ := ih
      obtain ⟨hnext, hkept⟩ := sound_turn (hsame ▸ hquota) hmid hturn
      exact ⟨hnext, hkept.trans hsame⟩

/-- A registry that calls have led to, one after the other or many at once. -/
inductive Reachable (quota : Quota) : Timed → Prop
  | start : Reachable quota (.start quota)
  | call {state : Timed} (before : Reachable quota state) (call : Call) :
      Reachable quota (state.perform call).2
  | crowd {state : Timed} {later : Crowd} (before : Reachable quota state)
      (tasks : List Task)
      (turns : ReflTransGen (Crowd.Turn state.now) ⟨state.registry, tasks⟩ later) :
      Reachable quota ⟨later.registry, state.now⟩

theorem Reachable.sound (hquota : quota.Usable) (hreach : Reachable quota state) :
    state.Sound ∧ state.registry.quota = quota := by
  induction hreach with
  | start => exact ⟨sound_start quota, rfl⟩
  | call before call ih =>
      obtain ⟨hs, rfl⟩ := ih
      exact ⟨hs.perform hquota call, quota_perform _ call⟩
  | crowd before tasks turns ih =>
      obtain ⟨hs, rfl⟩ := ih
      exact sound_turns hquota hs turns

-- ============================================================= the worth

/-- The token count of a client at the instant `now`, full if the client is not
tracked. -/
def countAt (registry : Registry) (now : ℕ) (client : String) : Binary64 :=
  match registry.find? client with
  | some bucket => (bucket.refill registry.quota now).tokens
  | none => registry.quota.capacity

def worth (registry : Registry) (now : ℕ) (client : String) : ℚ :=
  (registry.countAt now client).magnitude

theorem worth_congr {registry' : Registry} (hsame : registry'.quota = registry.quota)
    (hfind : registry'.find? client = registry.find? client) :
    registry'.worth now client = registry.worth now client := by
  unfold worth countAt
  rw [hfind, hsame]

theorem worth_nonneg (registry : Registry) (now : ℕ) (client : String) :
    0 ≤ registry.worth now client :=
  Binary64.magnitude_nonneg _

theorem worth_of_find? (hfind : registry.find? client = some bucket) :
    registry.worth now client
      = (bucket.refill registry.quota now).tokens.magnitude := by
  unfold worth countAt
  rw [hfind]

theorem worth_of_forgotten (hfind : registry.find? client = none) :
    registry.worth now client = registry.quota.burst.toNat := by
  unfold worth countAt
  rw [hfind]
  exact registry.quota.capacity_magnitude

theorem worth_bucketOf (hquota : registry.quota.Usable) (now : ℕ)
    (client : String) :
    ((registry.bucketOf now client).refill registry.quota now).tokens.magnitude
      = registry.worth now client := by
  unfold bucketOf
  cases hfind : registry.find? client with
  | some bucket => exact (worth_of_find? hfind).symm
  | none =>
      rw [worth_of_forgotten hfind, Option.getD_none, Bucket.refill_of_full hquota rfl]
      exact registry.quota.capacity_magnitude

/-- A request takes a token off the worth if there is one, and nothing
otherwise. -/
theorem worth_request (hquota : registry.quota.Usable)
    (hs : (Timed.mk registry now).Sound) (client : String) :
    ((registry.request now client).1 = .allowed
        ∧ (registry.request now client).2.worth now client
          = registry.worth now client - 1)
      ∨ ((registry.request now client).1 = .denied registry.quota.retryAfter
        ∧ registry.worth now client < 1
        ∧ (registry.request now client).2.worth now client
          = registry.worth now client) := by
  have hnext := (hs.perform hquota (.request client)).sound client
  have hview := find?_request registry now client client
  have hb := (hs.bucketOf client).refill hquota now
  have hworth := worth_bucketOf hquota now client
  have hcredited := Bucket.draw_creditedAt registry.quota now
    (registry.bucketOf now client)
  rw [if_pos rfl] at hview
  have hafter : (registry.request now client).2.worth now client
      = ((registry.bucketOf now client).draw registry.quota now).2.tokens.magnitude := by
    rw [worth_of_find? hview]
    exact (hnext _ hview).refill_magnitude_of_le hquota hcredited.ge
  rw [hafter]
  unfold request
  rcases Bucket.draw_cases registry.quota now (registry.bucketOf now client)
    with ⟨hone, hdraw⟩ | ⟨hnone, hdraw⟩
  · left
    rw [hdraw]
    refine ⟨rfl, ?_⟩
    show (_ - (1 : Binary64)).magnitude = _
    rw [(hb.take hone).2, hworth]
  · right
    rw [hdraw]
    refine ⟨rfl, ?_, hworth⟩
    rw [← hworth]
    exact not_le.mp (mt hb.one_le_iff.mpr hnone)

theorem worth_request_other (hother : other ≠ client) :
    (registry.request now client).2.worth now other = registry.worth now other := by
  refine worth_congr rfl ?_
  rw [find?_request, if_neg hother]

/-- A refill changes nobody's worth at its instant, and what is full after it is
worth the burst, removed or not. -/
theorem worth_of_refilled {registry' : Registry} (hquota : registry.quota.Usable)
    (hs : (Timed.mk registry now).Sound) (hsame : registry'.quota = registry.quota)
    (hview : registry'.find? client
      = ((registry.find? client).map (·.refill registry.quota now)).filter
          (·.isPartial registry.quota)) :
    registry'.worth now client = registry.worth now client := by
  cases hfind : registry.find? client with
  | none =>
      refine worth_congr hsame ?_
      rw [hview, hfind]
      rfl
  | some bucket =>
      have hb := (hs.sound client bucket hfind).refill hquota now
      rw [hfind, Option.map_some] at hview
      rw [worth_of_find? hfind]
      cases hpartial : (bucket.refill registry.quota now).isPartial registry.quota with
      | true =>
          rw [Option.filter_some_pos hpartial] at hview
          rw [worth_of_find? hview, hsame]
          exact hb.refill_magnitude_of_le hquota (Nat.le_refl _)
      | false =>
          rw [Option.filter_some_neg (by simp [hpartial])] at hview
          rw [worth_of_forgotten hview, hsame,
            (hb.isPartial_eq_false_iff hquota).mp hpartial]
          exact registry.quota.capacity_magnitude.symm

/-- A visit changes nobody's worth. -/
theorem worth_visit (hquota : registry.quota.Usable)
    (hs : (Timed.mk registry now).Sound) (client other : String) :
    (registry.visit now client).worth now other = registry.worth now other := by
  have hsame := quota_visit registry now client
  have hview := find?_visit registry now client other
  by_cases hown : other = client
  · subst hown
    exact worth_of_refilled hquota hs hsame (hview.trans (if_pos rfl))
  · exact worth_congr hsame (hview.trans (if_neg hown))

-- ========================================================= the invariant

namespace Crowd

/-- Worth and approvals add up to `total`, and after a denial there is no whole
token left. -/
structure Balanced (now : ℕ) (client : String) (total : ℚ) (crowd : Crowd) :
    Prop where
  paid : crowd.registry.worth now client + crowd.approved client = total
  spent : crowd.approved client < crowd.completed client →
    crowd.registry.worth now client < 1

variable {total : ℚ} {front back : List Task} {task : Task} {answer : Admission}

theorem approved_le_completed (crowd : Crowd) (client : String) :
    crowd.approved client ≤ crowd.completed client := by
  refine List.countP_mono_left fun task _ happroved => ?_
  cases task with
  | answered other answer =>
      unfold Task.approves at happroved
      exact ((Bool.and_eq_true _ _).mp happroved).1
  | _ => cases happroved

/-- A call for the client that is done adds to what is done, and if allowed to
what is approved. -/
theorem counts_answered (registry registry' : Registry) (front back : List Task)
    (hcall : task.completes client = false ∧ task.approves client = false) :
    approved ⟨registry', front ++ .answered other answer :: back⟩ client
        = approved ⟨registry, front ++ task :: back⟩ client
          + (if other = client ∧ answer.isAllowed then 1 else 0)
      ∧ completed ⟨registry', front ++ .answered other answer :: back⟩ client
        = completed ⟨registry, front ++ task :: back⟩ client
          + (if other = client then 1 else 0) := by
  simp [approved, completed, List.countP_cons, hcall.1, hcall.2, Nat.add_assoc]

theorem counts_congr {task' : Task} (registry registry' : Registry)
    (front back : List Task)
    (hcompletes : task'.completes client = task.completes client)
    (happroves : task'.approves client = task.approves client) :
    approved ⟨registry', front ++ task' :: back⟩ client
        = approved ⟨registry, front ++ task :: back⟩ client
      ∧ completed ⟨registry', front ++ task' :: back⟩ client
        = completed ⟨registry, front ++ task :: back⟩ client := by
  simp [approved, completed, List.countP_cons, hcompletes, happroves]

/-- A draw under the lock keeps the balance: of the client's own, a token
changes hands; of another's, nothing changes. -/
theorem Balanced.draw (hquota : registry.quota.Usable)
    (hs : (Timed.mk registry now).Sound)
    (hcall : task.completes client = false ∧ task.approves client = false)
    (h : Balanced now client total ⟨registry, front ++ task :: back⟩) :
    Balanced now client total ⟨(registry.request now other).2,
      front ++ .answered other (registry.request now other).1 :: back⟩ := by
  obtain ⟨hpaid, hspent⟩ := h
  have hcounts : ∀ answer registry',
      approved ⟨registry', front ++ .answered other answer :: back⟩ client = _
        ∧ completed ⟨registry', front ++ .answered other answer :: back⟩ client = _ :=
    fun answer registry' => counts_answered registry registry' front back hcall
  have hbelow := approved_le_completed ⟨registry, front ++ task :: back⟩ client
  by_cases hown : other = client
  case neg =>
    have hsame : (registry.request now other).2.worth now client
        = registry.worth now client := worth_request_other (Ne.symm hown)
    constructor
    · rw [(hcounts _ _).1, if_neg (fun h => hown h.1), hsame]
      exact hpaid
    · rw [(hcounts _ _).1, (hcounts _ _).2, if_neg (fun h => hown h.1), if_neg hown,
        hsame]
      exact hspent
  subst hown
  rcases worth_request hquota hs other with ⟨hallowed, hless⟩ | ⟨hdenied, hnone, hsame⟩
  · have hadmitted : (registry.request now other).1.isAllowed = true := by
      rw [hallowed]
      rfl
    constructor
    · rw [(hcounts _ _).1, if_pos ⟨rfl, hadmitted⟩, hless]
      push_cast
      linarith
    · intro hlt
      rw [(hcounts _ _).1, (hcounts _ _).2, if_pos ⟨rfl, hadmitted⟩, if_pos rfl] at hlt
      rw [hless]
      linarith [hspent (by omega)]
  · have hrefused : ¬(other = other ∧ (registry.request now other).1.isAllowed) := by
      rw [hdenied]
      exact fun h => nomatch h.2
    constructor
    · rw [(hcounts _ _).1, if_neg hrefused, hsame]
      exact hpaid
    · intro _
      rw [hsame]
      exact hnone

/-- A turn in which no call is done and no worth changes keeps the balance. -/
theorem Balanced.idle {registry' : Registry} {task' : Task}
    (hworth : registry'.worth now client = registry.worth now client)
    (hcompletes : task'.completes client = task.completes client)
    (happroves : task'.approves client = task.approves client)
    (h : Balanced now client total ⟨registry, front ++ task :: back⟩) :
    Balanced now client total ⟨registry', front ++ task' :: back⟩ := by
  obtain ⟨happroved, hcompleted⟩ :=
    counts_congr registry registry' front back hcompletes happroves
  obtain ⟨hpaid, hspent⟩ := h
  constructor
  · rw [happroved, hworth]
    exact hpaid
  · rw [happroved, hcompleted, hworth]
    exact hspent

theorem Balanced.turn (hquota : crowd.registry.quota.Usable)
    (hs : (Timed.mk crowd.registry now).Sound) (hturn : crowd.Turn now later)
    (h : Balanced now client total crowd) : Balanced now client total later := by
  cases hturn with
  | hit registry front back there =>
      rw [drawFrom_of_find? there]
      exact h.draw hquota hs ⟨rfl, rfl⟩
  | miss registry front back absent => exact h.idle (by rfl) (by rfl) (by rfl)
  | enter registry front back => exact h.draw hquota hs ⟨rfl, rfl⟩
  | visit registry front back there new =>
      exact h.idle (worth_visit hquota hs _ client) (by rfl) (by rfl)

theorem Balanced.turns (hquota : crowd.registry.quota.Usable)
    (hs : (Timed.mk crowd.registry now).Sound)
    (hturns : ReflTransGen (Turn now) crowd later)
    (h : Balanced now client total crowd) : Balanced now client total later := by
  induction hturns with
  | refl => exact h
  | tail hbefore hturn ih =>
      obtain ⟨hmid, hsame⟩ := sound_turns hquota hs hbefore
      exact ih.turn (hsame ▸ hquota) hmid hturn

/-- A balance says how many calls were allowed: all that are done, or as many
as there were whole tokens. -/
theorem Balanced.approved_eq (h : Balanced now client total crowd) :
    crowd.approved client = min (crowd.completed client) ⌊total⌋₊ := by
  obtain ⟨hpaid, hspent⟩ := h
  have hworth := worth_nonneg crowd.registry now client
  have hbelow : (crowd.approved client : ℚ) ≤ total := by linarith
  have hfloor : crowd.approved client ≤ ⌊total⌋₊ := Nat.le_floor hbelow
  rcases (approved_le_completed crowd client).eq_or_lt with hall | hdenied
  · rw [← hall, min_eq_left hfloor]
  · have hless : total < crowd.approved client + 1 := by linarith [hspent hdenied]
    have heq : ⌊total⌋₊ = crowd.approved client :=
      (Nat.floor_eq_iff (hbelow.trans' (Nat.cast_nonneg _))).mpr ⟨hbelow, hless⟩
    rw [heq, min_eq_right hdenied.le]

theorem balanced_fresh {tasks : List Task}
    (hfresh : ∀ task ∈ tasks, task.isFresh = true) :
    Balanced now client (registry.worth now client) ⟨registry, tasks⟩ := by
  have hnone : approved ⟨registry, tasks⟩ client = 0
      ∧ completed ⟨registry, tasks⟩ client = 0 := by
    unfold approved completed
    rw [List.countP_eq_zero, List.countP_eq_zero]
    constructor
    all_goals
      intro task hmem hdone
      have hidle := hfresh task hmem
      cases task <;> first | cases hdone | cases hidle
  refine ⟨?_, fun hlt => ?_⟩
  · rw [hnone.1, Nat.cast_zero, add_zero]
  · rw [hnone.1, hnone.2] at hlt
    exact absurd hlt (Nat.lt_irrefl 0)

-- ================================================= no call gets lost

/-- Whose call a task is never changes. -/
theorem clients_turns (hturns : ReflTransGen (Turn now) crowd later) :
    later.tasks.map Task.client? = crowd.tasks.map Task.client? := by
  induction hturns with
  | refl => rfl
  | tail _ hturn ih =>
      rw [← ih]
      cases hturn <;> simp [Task.client?]

/-- A call that is not done can have its turn. -/
theorem exists_turn (now : ℕ) (hmem : task ∈ crowd.tasks)
    (hclient : task.client? = some client) (hopen : task.completes client = false) :
    ∃ later, crowd.Turn now later := by
  obtain ⟨registry, tasks⟩ := crowd
  obtain ⟨front, back, rfl⟩ := List.append_of_mem hmem
  cases task with
  | asking other =>
      cases hfind : registry.find? other with
      | none => exact ⟨_, .miss registry front back hfind⟩
      | some bucket => exact ⟨_, .hit registry front back hfind⟩
  | missing other => exact ⟨_, .enter registry front back⟩
  | answered other answer => simp_all [Task.client?]
  | sweeping visited => cases hclient

/-- If no call of the client is left open, all its callers are done. -/
theorem completed_eq_count {tasks : List Task}
    (hfresh : ∀ task ∈ tasks, task.isFresh = true)
    (hturns : ReflTransGen (Turn now) ⟨registry, tasks⟩ later)
    (hdone : ∀ task ∈ later.tasks, task.client? = some client →
      task.completes client = true) :
    later.completed client = tasks.count (.asking client) := by
  have hclients := clients_turns hturns
  have hlater : later.completed client
      = (later.tasks.map Task.client?).count (some client) := by
    rw [completed, List.count, List.countP_map]
    refine List.countP_congr fun task hmem => ?_
    have hdone := hdone task hmem
    cases task <;> simp_all [Task.client?, Task.completes]
  have hbefore : tasks.count (.asking client)
      = (tasks.map Task.client?).count (some client) := by
    rw [List.count, List.count, List.countP_map]
    refine List.countP_congr fun task hmem => ?_
    have hfresh := hfresh task hmem
    cases task <;> simp_all [Task.client?, Task.isFresh]
  rw [hlater, hbefore, hclients]

end Crowd

-- ======================================================== the theorem

theorem Timed.Sound.countAt (hquota : state.registry.quota.Usable)
    (hs : state.Sound) (client : String) :
    (state.registry.countAt state.now client).toRat?
      = some (state.registry.worth state.now client) := by
  unfold worth Registry.countAt
  cases hfind : state.registry.find? client with
  | none =>
      exact (Quota.capacity_nonneg _).toRat?_eq (Quota.capacity_isFinite _)
  | some bucket =>
      have hb := (hs.sound client bucket hfind).refill hquota state.now
      exact hb.nonneg.toRat?_eq hb.isFinite

/-- However calls and sweeps are interleaved at one instant, on a registry that
can be reached: each client has one bucket at most, and of the calls for it
that are done as many were allowed as there are whole tokens in its count at
that instant, or all of them. Who was not tracked gets the burst, shared by
all its callers. -/
theorem approved_eq_min (hquota : quota.Usable) (hreach : Reachable quota state)
    {tasks : List Task} (hfresh : ∀ task ∈ tasks, task.isFresh = true)
    (hturns : ReflTransGen (Crowd.Turn state.now) ⟨state.registry, tasks⟩ later)
    (client : String) :
    later.registry.clients.Nodup
      ∧ (∃ count, (state.registry.countAt state.now client).toRat? = some count
        ∧ later.approved client = min (later.completed client) ⌊count⌋₊)
      ∧ (state.registry.contains client = false →
        (∀ task ∈ later.tasks, task.client? = some client →
          task.completes client = true) →
        later.approved client
          = min (tasks.count (.asking client)) quota.burst.toNat) := by
  obtain ⟨hs, rfl⟩ := hreach.sound hquota
  obtain ⟨hlater, -⟩ := sound_turns hquota hs hturns
  have hbalance : later.approved client = min (later.completed client)
      ⌊state.registry.worth state.now client⌋₊ :=
    ((Crowd.balanced_fresh hfresh).turns hquota hs hturns).approved_eq
  refine ⟨hlater.distinct, ⟨_, hs.countAt hquota client, hbalance⟩, ?_⟩
  intro hunknown hdone
  have hfind : state.registry.find? client = none := by
    simpa [contains] using hunknown
  rw [hbalance, Crowd.completed_eq_count hfresh hturns hdone,
    worth_of_forgotten hfind, Nat.floor_natCast]

/-- Two callers both find no bucket of a new client. The first makes one and
spends its only token, a sweep comes by, and the second gets none. -/
theorem approved_eq_min_of_race :
    let quota : Quota := ⟨.ofNat 10, 1⟩
    let tasks := [Task.asking "a", .asking "a", .sweeping []]
    quota.Usable ∧ Reachable quota (.start quota)
      ∧ (∀ task ∈ tasks, task.isFresh = true)
      ∧ ∃ later, ReflTransGen (Crowd.Turn 0) ⟨.empty quota, tasks⟩ later
        ∧ later.completed "a" = 2
        ∧ later.approved "a" = min 2 1 := by
  intro quota tasks
  have hquota : quota.Usable := ⟨by decide +kernel, by decide +kernel, by decide⟩
  have hfresh : ∀ task ∈ tasks, task.isFresh = true := by decide
  let first := (empty quota).request 0 "a"
  let swept := first.2.visit 0 "a"
  let second := swept.request 0 "a"
  have hthere : first.2.find? "a" = some ⟨0, 0⟩ := by decide +kernel
  have hfirst : Crowd.Turn 0 ⟨.empty quota, tasks⟩
      ⟨.empty quota, [.missing "a", .asking "a", .sweeping []]⟩ :=
    .miss _ [] [.asking "a", .sweeping []] rfl
  have hsecond : Crowd.Turn 0 _
      ⟨.empty quota, [.missing "a", .missing "a", .sweeping []]⟩ :=
    .miss _ [.missing "a"] [.sweeping []] rfl
  have hmade : Crowd.Turn 0 _
      ⟨first.2, [.answered "a" first.1, .missing "a", .sweeping []]⟩ :=
    .enter _ [] [.missing "a", .sweeping []]
  have hswept : Crowd.Turn 0 _
      ⟨swept, [.answered "a" first.1, .missing "a", .sweeping ["a"]]⟩ :=
    .visit _ [.answered "a" first.1, .missing "a"] [] hthere List.not_mem_nil
  have hfound : Crowd.Turn 0 _
      ⟨second.2, [.answered "a" first.1, .answered "a" second.1, .sweeping ["a"]]⟩ :=
    .enter _ [.answered "a" first.1] [.sweeping ["a"]]
  have hturns := ((((ReflTransGen.single hfirst).tail hsecond).tail hmade).tail
    hswept).tail hfound
  refine ⟨hquota, .start, hfresh, _, hturns, by decide +kernel, ?_⟩
  exact (approved_eq_min hquota .start hfresh hturns "a").2.2 rfl (by decide +kernel)

end Turnstile.Registry
