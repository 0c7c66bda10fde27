/-
The view of a registry.

`find?` says what a registry knows of a client, and here stands what each
operation does to it: a request changes the answer for its own client
alone (`find?_request`), and a sweep refills every bucket and forgets the
full ones (`find?_sweep`), as many as it counts (`sweepCount_add_size`).

The latter holds of registries whose clients are distinct. A new registry
is one of them, and both operations keep it so: a request adds at most its
own client, at the end (`clients_request`), and a sweep only removes.
-/
import Turnstile.Registry

namespace Turnstile.Registry

-- ==================================================================== a new one

/-- A new registry knows nobody. -/
theorem find?_empty (quota : Quota) (client : String) :
    (empty quota).find? client = none := rfl

/-- The clients of a new registry. -/
theorem clients_empty (quota : Quota) : (empty quota).clients = [] := rfl

-- ================================================================= single entries

/-- The answer of a list whose first entry is known. -/
theorem lookup_entry (client : String) (entry : String × Bucket)
    (rest : List (String × Bucket)) :
    (entry :: rest).lookup client
      = if client = entry.1 then some entry.2 else rest.lookup client := by
  rw [List.lookup_cons]
  by_cases here : client = entry.1
  · rw [if_pos here, beq_iff_eq.mpr here]
  · rw [if_neg here, beq_eq_false_iff_ne.mpr here]

/-- A client without an entry has no answer. -/
theorem lookup_eq_none_of_not_mem {client : String}
    {buckets : List (String × Bucket)} (absent : client ∉ buckets.map Prod.fst) :
    buckets.lookup client = none := by
  refine List.lookup_eq_none_iff.mpr fun entry there => ?_
  refine bne_iff_ne.mpr fun same => absent ?_
  rw [same]
  exact List.mem_map_of_mem there

-- ===================================================================== requests

/-- Putting a bucket changes the answer for its own client alone. -/
theorem lookup_put (client other : String) (bucket : Bucket)
    (buckets : List (String × Bucket)) :
    (put client bucket buckets).lookup other
      = if other = client then some bucket else buckets.lookup other := by
  induction buckets with
  | nil => rw [put, lookup_entry]
  | cons entry rest ih =>
      rw [put]
      by_cases here : entry.1 = client
      · rw [if_pos here, lookup_entry, lookup_entry, here]
        split <;> rfl
      · rw [if_neg here, lookup_entry, lookup_entry, ih]
        by_cases found : other = entry.1
        · rw [if_pos found, if_pos found, if_neg (found ▸ here)]
        · rw [if_neg found, if_neg found]

/-- A request changes what is known of its own client alone. -/
theorem find?_request (registry : Registry) (now : Nat) (client other : String) :
    (registry.request now client).2.find? other
      = if other = client then
          some ((registry.bucketOf now client).draw registry.quota now).2
        else registry.find? other :=
  lookup_put ..

/-- Putting a bucket adds its client at the end, unless it is there. -/
theorem keys_put (client : String) (bucket : Bucket)
    (buckets : List (String × Bucket)) :
    (put client bucket buckets).map Prod.fst
      = if client ∈ buckets.map Prod.fst then buckets.map Prod.fst
        else buckets.map Prod.fst ++ [client] := by
  induction buckets with
  | nil => rfl
  | cons entry rest ih =>
      rw [put]
      by_cases here : entry.1 = client
      · rw [if_pos here, List.map_cons, List.map_cons, here,
          if_pos List.mem_cons_self]
      · rw [if_neg here, List.map_cons, List.map_cons, ih]
        by_cases later : client ∈ rest.map Prod.fst
        · rw [if_pos later, if_pos (List.mem_cons_of_mem _ later)]
        · have absent : client ∉ entry.1 :: rest.map Prod.fst := fun there =>
            (List.mem_cons.mp there).elim (fun same => here same.symm) later
          rw [if_neg later, if_neg absent, List.cons_append]

/-- A request adds its client at the end, unless it is tracked. -/
theorem clients_request (registry : Registry) (now : Nat) (client : String) :
    (registry.request now client).2.clients
      = if client ∈ registry.clients then registry.clients
        else registry.clients ++ [client] :=
  keys_put ..

/-- Requests keep the clients distinct. -/
theorem nodup_clients_request {registry : Registry} (now : Nat) (client : String)
    (distinct : registry.clients.Nodup) :
    (registry.request now client).2.clients.Nodup := by
  rw [clients_request]
  by_cases there : client ∈ registry.clients
  · rw [if_pos there]
    exact distinct
  · rw [if_neg there]
    refine List.nodup_append.mpr ⟨distinct, List.pairwise_singleton .., ?_⟩
    intro earlier tracked last added same
    rw [List.mem_singleton.mp added] at same
    exact there (same ▸ tracked)

-- ======================================================================= sweeps

/-- Changing every bucket changes each answer alike. -/
theorem lookup_map_snd (change : Bucket → Bucket) (client : String)
    (buckets : List (String × Bucket)) :
    (buckets.map fun entry => (entry.1, change entry.2)).lookup client
      = (buckets.lookup client).map change := by
  induction buckets with
  | nil => rfl
  | cons entry rest ih =>
      rw [List.map_cons, List.lookup_cons, List.lookup_cons, ih]
      split <;> rfl

/-- Dropping entries of distinct clients drops the answers that fail. -/
theorem lookup_filter_snd (keep : Bucket → Bool) (client : String)
    {buckets : List (String × Bucket)} (distinct : (buckets.map Prod.fst).Nodup) :
    (buckets.filter fun entry => keep entry.2).lookup client
      = (buckets.lookup client).filter keep := by
  induction buckets with
  | nil => rfl
  | cons entry rest ih =>
      rw [List.map_cons, List.nodup_cons] at distinct
      rw [List.filter_cons, lookup_entry]
      by_cases here : client = entry.1
      · have nowhere := lookup_eq_none_of_not_mem distinct.1
        rw [← here] at nowhere
        rw [if_pos here, Option.filter_some]
        by_cases kept : keep entry.2 = true
        · rw [if_pos kept, if_pos kept, lookup_entry, if_pos here]
        · rw [if_neg kept, if_neg kept, ih distinct.2, nowhere, Option.filter_none]
      · rw [if_neg here]
        by_cases kept : keep entry.2 = true
        · rw [if_pos kept, lookup_entry, if_neg here, ih distinct.2]
        · rw [if_neg kept, ih distinct.2]

/-- The clients whose buckets change are the same ones. -/
theorem keys_map_snd (change : Bucket → Bucket) (buckets : List (String × Bucket)) :
    (buckets.map fun entry => (entry.1, change entry.2)).map Prod.fst
      = buckets.map Prod.fst := by
  rw [List.map_map]
  rfl

/-- A sweep keeps the refilled buckets that are not full. -/
theorem sweepThrough_fst (quota : Quota) (now : Nat) (buckets : List (String × Bucket)) :
    (sweepThrough quota now buckets).1
      = (buckets.map fun entry => (entry.1, entry.2.refill quota now)).filter
          (·.2.isPartial quota) := by
  induction buckets with
  | nil => rfl
  | cons entry rest ih =>
      rw [List.map_cons, List.filter_cons, ← ih]
      unfold sweepThrough
      rw [List.foldr_cons]
      dsimp only
      split <;> rfl

/-- What a sweep counts and what it keeps are together all that was there. -/
theorem sweepThrough_snd_add (quota : Quota) (now : Nat)
    (buckets : List (String × Bucket)) :
    (sweepThrough quota now buckets).2 + (sweepThrough quota now buckets).1.length
      = buckets.length := by
  induction buckets with
  | nil => rfl
  | cons entry rest ih =>
      rw [List.length_cons, ← ih]
      unfold sweepThrough
      rw [List.foldr_cons]
      dsimp only
      split
      · rfl
      · exact Nat.add_right_comm ..

/-- A sweep refills every bucket and drops the full ones. -/
theorem buckets_sweep (registry : Registry) (now : Nat) :
    (registry.sweep now).buckets
      = (registry.buckets.map fun entry =>
          (entry.1, entry.2.refill registry.quota now)).filter
            (·.2.isPartial registry.quota) :=
  sweepThrough_fst ..

/-- A sweep counts those that are missing after it. -/
theorem sweepCount_add_size (registry : Registry) (now : Nat) :
    registry.sweepCount now + (registry.sweep now).size = registry.size :=
  sweepThrough_snd_add ..

/-- A sweep refills every bucket and forgets the full ones. -/
theorem find?_sweep {registry : Registry} (now : Nat) (client : String)
    (distinct : registry.clients.Nodup) :
    (registry.sweep now).find? client
      = ((registry.find? client).map (·.refill registry.quota now)).filter
          (·.isPartial registry.quota) := by
  rw [find?, find?, buckets_sweep, lookup_filter_snd (·.isPartial registry.quota),
    lookup_map_snd (·.refill registry.quota now)]
  rw [keys_map_snd (·.refill registry.quota now)]
  exact distinct

/-- A sweep leaves the clients in their order. -/
theorem clients_sweep_sublist (registry : Registry) (now : Nat) :
    (registry.sweep now).clients.Sublist registry.clients := by
  have refilled := keys_map_snd (·.refill registry.quota now) registry.buckets
  rw [clients, clients, buckets_sweep, ← refilled]
  exact List.filter_sublist.map _

/-- Sweeps keep the clients distinct. -/
theorem nodup_clients_sweep {registry : Registry} (now : Nat)
    (distinct : registry.clients.Nodup) :
    (registry.sweep now).clients.Nodup :=
  distinct.sublist (clients_sweep_sublist registry now)

end Turnstile.Registry
