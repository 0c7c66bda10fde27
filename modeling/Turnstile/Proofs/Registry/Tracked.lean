/-
Who is tracked, and with what count.

A client is tracked from its first request on until a sweep removes it,
and from its next request on again: it is tracked exactly if the history
has a request of the client after which no sweep removed it
(`AskedSinceRemoval`). Both sides obey the same law when a call is added
at the end (`contains_perform`, `askedSinceRemoval_snoc`), so the
induction of `contains_run_iff` is on the calls from the end.

Together with Registry/Invariant.lean this says all that a reachable
registry is: `run_wellFormed`.

Chain (registry): Registry/Invariant.lean below.
-/
import Mathlib
import Turnstile.Proofs.Registry.Invariant

namespace Turnstile.Registry

variable {quota : Quota} {state : Timed} {client : String} {registry : Registry}
  {now : ℕ}

-- ============================================ who an operation adds or removes

theorem contains_iff_mem_clients :
    registry.contains client = true ↔ client ∈ registry.clients := by
  unfold contains find? clients
  rw [List.lookup_isSome_iff, List.mem_map]
  constructor
  · rintro ⟨entry, hmem, hsame⟩
    exact ⟨entry, hmem, (beq_iff_eq.mp hsame).symm⟩
  · rintro ⟨entry, hmem, rfl⟩
    exact ⟨entry, hmem, beq_self_eq_true _⟩

/-- Where clients are distinct, an entry is what `find?` gives. -/
theorem find?_of_mem (hdistinct : registry.clients.Nodup) {bucket : Bucket}
    (hmem : (client, bucket) ∈ registry.buckets) :
    registry.find? client = some bucket := by
  obtain ⟨front, back, hsplit⟩ := List.append_of_mem hmem
  unfold clients at hdistinct
  rw [hsplit, List.map_append, List.nodup_append] at hdistinct
  refine List.lookup_eq_some_iff.mpr ⟨front, back, hsplit, fun entry hentry => ?_⟩
  refine bne_iff_ne.mpr fun hsame => ?_
  exact hdistinct.2.2 entry.1 (List.mem_map_of_mem hentry) client
    List.mem_cons_self hsame.symm

theorem contains_request (registry : Registry) (now : ℕ) (client other : String) :
    (registry.request now client).2.contains other = true
      ↔ other = client ∨ registry.contains other = true := by
  unfold contains
  rw [find?_request]
  by_cases hown : other = client
  · simp [hown]
  · simp [hown]

theorem contains_of_contains_sweep
    (hcontains : (registry.sweep now).contains client = true) :
    registry.contains client = true := by
  rw [contains_iff_mem_clients] at hcontains ⊢
  exact (clients_sweep_sublist registry now).subset hcontains

-- ====================================================== requests and removals

/-- The step is a sweep that finds the client tracked and removes it. -/
def Step.removes (client : String) (step : Step) : Bool :=
  match step.call with
  | .sweep => step.before.registry.contains client
      && !(step.before.registry.sweep step.before.now).contains client
  | _ => false

/-- The client has asked, and since then no sweep has removed it. -/
def AskedSinceRemoval (client : String) (steps : List Step) : Prop :=
  ∃ early ask late, steps = early ++ ask :: late
    ∧ ask.call = .request client ∧ ∀ step ∈ late, step.removes client = false

theorem askedSinceRemoval_snoc {steps : List Step} {last : Step} :
    AskedSinceRemoval client (steps ++ [last])
      ↔ last.call = .request client
        ∨ (AskedSinceRemoval client steps ∧ last.removes client = false) := by
  constructor
  · rintro ⟨early, ask, late, hsplit, hask, hkept⟩
    rcases late.eq_nil_or_concat with rfl | ⟨late, step, rfl⟩
    · left
      obtain ⟨-, hlast⟩ := List.append_inj' hsplit rfl
      rw [(List.cons.inj hlast).1]
      exact hask
    · right
      rw [List.concat_eq_append] at hsplit hkept
      rw [← List.cons_append, ← List.append_assoc] at hsplit
      obtain ⟨hsteps, hlast⟩ := List.append_inj' hsplit rfl
      rw [(List.cons.inj hlast).1]
      refine ⟨⟨early, ask, late, hsteps, hask, fun step hmem => ?_⟩, ?_⟩
      · exact hkept step (List.mem_append_left _ hmem)
      · exact hkept step (List.mem_append_right _ (List.mem_singleton_self _))
  · rintro (hask | ⟨⟨early, ask, late, rfl, hask, hkept⟩, hlast⟩)
    · exact ⟨steps, last, [], rfl, hask, fun _ hmem => nomatch hmem⟩
    · refine ⟨early, ask, late ++ [last], by simp, hask, fun step hmem => ?_⟩
      rcases List.mem_append.mp hmem with hmem | hmem
      · exact hkept step hmem
      · rw [List.mem_singleton.mp hmem]
        exact hlast

/-- Who is tracked after a call: who has just asked, and who was tracked and
is not removed. -/
theorem contains_perform (client : String) (state : Timed) (call : Call)
    (outcome : Outcome) :
    (state.perform call).2.registry.contains client = true
      ↔ call = .request client
        ∨ (state.registry.contains client = true
          ∧ Step.removes client ⟨state, call, outcome⟩ = false) := by
  cases call with
  | request other =>
      have hview := contains_request state.registry state.now other client
      by_cases hown : other = client
      · subst hown
        simpa [Timed.perform, Step.removes] using hview
      · simpa [Timed.perform, Step.removes, hown, Ne.symm hown] using hview
  | sweep =>
      have hkept : (state.registry.sweep state.now).contains client = true →
          state.registry.contains client = true := contains_of_contains_sweep
      show (state.registry.sweep state.now).contains client = true ↔ _
      cases hbefore : state.registry.contains client <;>
        cases hafter : (state.registry.sweep state.now).contains client <;>
        simp_all [Step.removes]
  | wait nanos => simp [Timed.perform, Step.removes]

theorem contains_run_iff (client : String) (calls : List Call) :
    ((Timed.start quota).run calls).2.registry.contains client = true
      ↔ AskedSinceRemoval client ((Timed.start quota).history calls) := by
  induction calls using List.reverseRecOn with
  | nil =>
      refine ⟨fun hcontains => (nomatch hcontains), ?_⟩
      rintro ⟨early, ask, late, hsplit, -, -⟩
      cases early <;> cases hsplit
  | append_singleton calls call ih =>
      rw [run_append, history_append]
      show (((Timed.start quota).run calls).2.perform call).2.registry.contains
        client = true ↔ AskedSinceRemoval client (_ ++ [Step.mk ..])
      rw [contains_perform, askedSinceRemoval_snoc, ih]

-- ====================================================== what a sweep removes

/-- The clients that a sweep forgets. -/
def removed (registry : Registry) (now : ℕ) : List String :=
  registry.clients.filter fun client => !(registry.sweep now).contains client

/-- What a sweep counts are the clients that it forgets. -/
theorem sweepCount_eq_length_removed (hdistinct : registry.clients.Nodup) (now : ℕ) :
    registry.sweepCount now = (registry.removed now).length := by
  have hkept : (registry.clients.filter (registry.sweep now).contains).Perm
      (registry.sweep now).clients := by
    refine (List.perm_ext_iff_of_nodup (hdistinct.filter _)
      (nodup_clients_sweep now hdistinct)).mpr fun client => ?_
    rw [List.mem_filter, contains_iff_mem_clients]
    have hsubset := (clients_sweep_sublist registry now).subset (a := client)
    exact ⟨And.right, fun hmem => ⟨hsubset hmem, hmem⟩⟩
  have hsplit := List.length_eq_length_filter_add
    (l := registry.clients) (registry.sweep now).contains
  have hsizes : ∀ registry : Registry, registry.clients.length = registry.size := by
    intro registry
    exact List.length_map ..
  rw [hkept.length_eq, hsizes, hsizes] at hsplit
  have hcount := sweepCount_add_size registry now
  unfold removed
  omega

/-- Nobody is forgotten without a sweep. -/
theorem contains_run_of_unswept {calls : List Call} (hsweeps : .sweep ∉ calls)
    (hcontains : state.registry.contains client = true) :
    (state.run calls).2.registry.contains client = true := by
  induction calls generalizing state with
  | nil => exact hcontains
  | cons call rest ih =>
      simp only [List.mem_cons, not_or] at hsweeps
      obtain ⟨hcall, hrest⟩ := hsweeps
      rw [run_cons]
      apply ih hrest
      cases call with
      | request other =>
          exact (contains_request _ _ other client).mpr (.inr hcontains)
      | sweep => exact absurd rfl hcall
      | wait nanos => exact hcontains

-- ======================================================== the theorem

theorem Timed.Sound.count_of_mem (hs : state.Sound) {bucket : Bucket}
    (hmem : (client, bucket) ∈ state.registry.buckets) :
    (∃ count, bucket.tokens.toRat? = some count ∧ 0 ≤ count
        ∧ count ≤ state.registry.quota.burst.toNat)
      ∧ bucket.creditedAt ≤ state.now := by
  have hfind := find?_of_mem hs.distinct hmem
  have hb := hs.sound client bucket hfind
  refine ⟨⟨bucket.tokens.magnitude, ?_, ?_, hb.magnitude_le⟩,
    hs.credited client bucket hfind⟩
  · exact hb.nonneg.toRat?_eq hb.isFinite
  · exact Binary64.magnitude_nonneg _

/-- What a registry is after any run. Each client has one bucket at most; a
bucket holds a number between zero and the burst and is not credited from
the future; the tracked clients are those who asked since they were last
removed. The next request adds nobody but its own client and removes nobody,
and the next sweep adds nobody. -/
theorem run_wellFormed (hquota : quota.Usable) (calls : List Call) :
    let steps := (Timed.start quota).history calls
    let state := ((Timed.start quota).run calls).2
    state.registry.clients.Nodup
      ∧ (∀ client bucket, (client, bucket) ∈ state.registry.buckets →
        (∃ count, bucket.tokens.toRat? = some count ∧ 0 ≤ count
            ∧ count ≤ quota.burst.toNat)
          ∧ bucket.creditedAt ≤ state.now)
      ∧ (∀ client, state.registry.contains client = true
        ↔ AskedSinceRemoval client steps)
      ∧ (∀ client other,
        (state.registry.request state.now client).2.contains other = true
          ↔ other = client ∨ state.registry.contains other = true)
      ∧ (∀ client, (state.registry.sweep state.now).contains client = true →
        state.registry.contains client = true) := by
  intro steps state
  obtain ⟨hs, hsame⟩ := (sound_start quota).run hquota calls
  refine ⟨hs.distinct, fun client bucket hmem => ?_,
    fun client => contains_run_iff client calls,
    fun client other => contains_request _ _ client other,
    fun client => contains_of_contains_sweep⟩
  have hcount := hs.count_of_mem hmem
  rw [hsame] at hcount
  exact hcount

/-- At the largest rate two seconds are worth more than a binary64 number can
hold. They fill one client's bucket, which is removed; the other client has
just asked and is kept. -/
theorem run_wellFormed_of_overflow :
    let quota : Quota := ⟨.finite false ⟨Binary64.rankBound - 1, by decide⟩,
      4294967295⟩
    let calls := [.request "a", .wait 2000000000, .request "b", .sweep,
      .request "b"]
    let state := ((Timed.start quota).run calls).2
    quota.Usable
      ∧ secondsOf 2000000000 * quota.rate = .infinity false
      ∧ state.registry.contains "a" = false
      ∧ (AskedSinceRemoval "b" ((Timed.start quota).history calls)
        ∧ ¬AskedSinceRemoval "a" ((Timed.start quota).history calls)) := by
  intro quota calls state
  have hquota : quota.Usable := ⟨by decide +kernel, by decide +kernel, by decide⟩
  have hforgotten : state.registry.contains "a" = false := by decide +kernel
  have htracked := (run_wellFormed hquota calls).2.2.1
  refine ⟨hquota, by decide +kernel, hforgotten, (htracked "b").mp ?_, ?_⟩
  · decide +kernel
  · rw [← htracked "a"]
    exact ne_true_of_eq_false hforgotten

end Turnstile.Registry
