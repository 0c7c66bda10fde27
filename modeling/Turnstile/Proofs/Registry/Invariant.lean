/-
What holds of every registry that a run reaches.

The clients are distinct, every bucket is sound, and no bucket is credited
beyond the present instant (`Timed.Sound`). A registry starts so, and each
call keeps it so (`Sound.perform`), hence so does every run (`Sound.run`).

Chain (registry): Registry/View.lean and Bucket/Sound.lean below; all run
lemmas of this folder assume it of the state they start from.
-/
import Mathlib
import Turnstile.Proofs.Bucket.Sound
import Turnstile.Proofs.Registry.History

namespace Turnstile.Registry

/-- Distinct clients, sound buckets, no credit from the future. -/
structure Timed.Sound (state : Timed) : Prop where
  distinct : state.registry.clients.Nodup
  sound : ∀ client bucket, state.registry.find? client = some bucket →
    bucket.Sound state.registry.quota
  credited : ∀ client bucket, state.registry.find? client = some bucket →
    bucket.creditedAt ≤ state.now

variable {state : Timed} {client : String}

theorem sound_start (quota : Quota) : (Timed.start quota).Sound where
  distinct := List.nodup_nil
  sound := fun _ _ h => nomatch h
  credited := fun _ _ h => nomatch h

theorem Timed.Sound.bucketOf (hs : state.Sound) (client : String) :
    (state.registry.bucketOf state.now client).Sound state.registry.quota := by
  unfold Registry.bucketOf
  cases hfind : state.registry.find? client with
  | none => exact Bucket.sound_full _ _
  | some bucket => exact hs.sound client bucket hfind

theorem find?_sweep_eq_some {registry : Registry} {now : ℕ} {bucket : Bucket}
    (hdistinct : registry.clients.Nodup)
    (hfind : (registry.sweep now).find? client = some bucket) :
    ∃ old, registry.find? client = some old
      ∧ bucket = old.refill registry.quota now
      ∧ bucket.isPartial registry.quota = true := by
  rw [find?_sweep now client hdistinct, Option.filter_eq_some_iff,
    Option.map_eq_some_iff] at hfind
  obtain ⟨⟨old, hold, rfl⟩, hpartial⟩ := hfind
  exact ⟨old, hold, rfl, hpartial⟩

theorem Timed.Sound.perform (hquota : state.registry.quota.Usable)
    (hs : state.Sound) (call : Call) : (state.perform call).2.Sound := by
  cases call with
  | request client =>
      have hdraw := (hs.bucketOf client).draw hquota state.now
      have hcredited := Bucket.draw_creditedAt state.registry.quota state.now
        (state.registry.bucketOf state.now client)
      refine ⟨nodup_clients_request state.now client hs.distinct, ?_, ?_⟩
      all_goals
        intro other bucket hfind
        rw [show (state.perform (.request client)).2.registry
          = (state.registry.request state.now client).2 from rfl,
          find?_request] at hfind
        split at hfind
      · obtain rfl := Option.some.inj hfind
        exact hdraw
      · exact hs.sound other bucket hfind
      · obtain rfl := Option.some.inj hfind
        exact hcredited.le
      · exact hs.credited other bucket hfind
  | sweep =>
      refine ⟨nodup_clients_sweep state.now hs.distinct, ?_, ?_⟩
      all_goals
        intro other bucket hfind
        obtain ⟨old, hold, rfl, -⟩ := find?_sweep_eq_some hs.distinct hfind
      · exact (hs.sound other old hold).refill hquota state.now
      · exact Nat.le_refl _
  | wait nanos =>
      refine ⟨hs.distinct, hs.sound, fun other bucket hfind => ?_⟩
      exact (hs.credited other bucket hfind).trans (Nat.le_add_right ..)

/-- Every run keeps a state sound, and its quota as it is. -/
theorem Timed.Sound.run (hquota : state.registry.quota.Usable)
    (hs : state.Sound) (calls : List Call) :
    (state.run calls).2.Sound
      ∧ (state.run calls).2.registry.quota = state.registry.quota := by
  refine run_induction (motive := fun later =>
    later.Sound ∧ later.registry.quota = state.registry.quota) ?_ calls ⟨hs, rfl⟩
  rintro later call ⟨hlater, hsame⟩
  refine ⟨hlater.perform (hsame ▸ hquota) call, ?_⟩
  rw [quota_perform, hsame]

end Turnstile.Registry
