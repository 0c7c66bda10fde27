/-
Idle clients are forgotten.

Between two requests of a client nothing but sweeps touches its bucket, and
a sweep that keeps the bucket has credited the whole time since the one
before, but for the slack of one rounding. So a bucket that is still there
has been credited for less than its capacity, and what the sweeps have
rounded away. For the latter it takes the number of the sweeps: deadlines
are a period apart, or further, and the first one after a request was not
missed yet, so there is at most one sweep for each period since, and six
more (`Trace.sweeps_mul_le`). If what accrues in a period exceeds 2^-40 of
the burst, the loss is a small share of the credit, and the bucket is full
once two bursts have accrued (`Trace.credit_lt`).

What all this needs of a tracked client is `Trace`: instants of its last
request and its last credit, the number of sweeps since, and the deadline
that comes next. A request starts a new trace (`trace_draw`) and a sweep
goes on with the old one (`Trace.refill`); the limiter's part is `Watched`,
which goes from action to action.

Chain (limiter): Passage.lean, Lifecycle.lean and Bucket/Accuracy.lean below.
-/
import Mathlib
import Turnstile.Proofs.Bucket.Accuracy
import Turnstile.Proofs.Limiter.Lifecycle
import Turnstile.Proofs.Settings.Usable

namespace Turnstile

-- ========================================================== one bucket

/-- What is known of a bucket whose client asked at the instant `asked`, with
so many sweeps since, before the deadline of the next one. -/
structure Trace (quota : Quota) (period deadline asked sweeps : ℕ)
    (bucket : Bucket) : Prop where
  asked_le : asked ≤ bucket.creditedAt
  deadline_le : deadline ≤ bucket.creditedAt + period
  sweeps_le : sweeps * period + asked ≤ deadline + Sweeper.tolerance
  credit_le : quota.perSecond * seconds (bucket.creditedAt - asked)
    ≤ bucket.tokens.magnitude + sweeps * quota.slack

/-- The credit of a period is large enough to leave its mark on a full
bucket. -/
structure Quota.Paced (quota : Quota) (period : ℕ) : Prop where
  milli_le : nanosPerMilli ≤ period
  burst_le : quota.burst.toNat * 2 ^ (-40 : ℤ)
    ≤ quota.perSecond * seconds period

variable {quota : Quota} {bucket : Bucket}
  {period deadline asked sweeps now : ℕ}

theorem trace_draw (hfuture : deadline ≤ now + period)
    (hclose : now ≤ deadline + Sweeper.tolerance) (bucket : Bucket) :
    Trace quota period deadline now 0 (bucket.draw quota now).2 := by
  have hcredited := Bucket.draw_creditedAt quota now bucket
  refine ⟨hcredited.ge, ?_, by omega, ?_⟩
  · rw [hcredited]
    exact hfuture
  · rw [hcredited, Nat.sub_self]
    simp [seconds, Binary64.magnitude_nonneg]

theorem Trace.refill (hquota : quota.Usable)
    (ht : Trace quota period deadline asked sweeps bucket)
    (hb : bucket.Sound quota) (hpast : deadline ≤ now)
    (hcredited : bucket.creditedAt ≤ now)
    (hpartial : (bucket.refill quota now).isPartial quota = true) :
    Trace quota period (Sweeper.nextDeadline now period deadline) asked
      (sweeps + 1) (bucket.refill quota now) where
  asked_le := ht.asked_le.trans hcredited
  deadline_le := by
    show _ ≤ now + period
    unfold Sweeper.nextDeadline
    split <;> omega
  sweeps_le := by
    have hsweeps := ht.sweeps_le
    rw [Nat.add_mul, Nat.one_mul]
    -- a deadline that is put off leaves more room than one that is not
    unfold Sweeper.nextDeadline
    split <;> omega
  credit_le := by
    have hkept := hb.credit_le_of_isPartial hquota hpartial
    have hbefore := ht.credit_le
    have hspan : now - asked
        = (bucket.creditedAt - asked) + (now - bucket.creditedAt) := by
      have hasked := ht.asked_le
      omega
    show quota.perSecond * seconds (now - asked) ≤ _
    rw [hspan, seconds_add]
    push_cast
    linarith

/-- There is at most one sweep for each period since the request, and six
more. -/
theorem Trace.sweeps_mul_le
    (ht : Trace quota period deadline asked sweeps bucket)
    (hperiod : nanosPerMilli ≤ period) :
    sweeps * seconds period
      ≤ seconds (bucket.creditedAt - asked) + 6 * seconds period := by
  have hnanos :
      sweeps * period ≤ (bucket.creditedAt - asked) + 6 * period := by
    have hasked := ht.asked_le
    have hdeadline := ht.deadline_le
    have hsweeps := ht.sweeps_le
    unfold Sweeper.tolerance at hsweeps
    unfold nanosPerMilli at hperiod
    omega
  have hseconds := seconds_mono hnanos
  rw [seconds_add, seconds_mul, seconds_mul] at hseconds
  exact hseconds

/-- What the sweeps have rounded away is a small share of the credit. -/
theorem Trace.loss_le (hquota : quota.Usable)
    (ht : Trace quota period deadline asked sweeps bucket)
    (hpaced : quota.Paced period) :
    sweeps * quota.slack ≤ 6 * quota.slack
      + quota.perSecond * seconds (bucket.creditedAt - asked)
        * 2 ^ (-9 : ℤ) := by
  have hrate := hquota.perSecond_nonneg
  have hslack := quota.slack_nonneg
  have hsweeps := ht.sweeps_mul_le hpaced.milli_le
  have hspan := seconds_nonneg (bucket.creditedAt - asked)
  generalize seconds (bucket.creditedAt - asked) = span at hsweeps hspan ⊢
  have hunit : (0 : ℚ) ≤ 2 ^ (-9 : ℤ) := by positivity
  rcases le_or_gt (sweeps : ℚ) 6 with hfew | hmany
  · have hloss := mul_le_mul_of_nonneg_right hfew hslack
    have hshare : 0 ≤ quota.perSecond * span * 2 ^ (-9 : ℤ) := by positivity
    linarith
  · -- each further sweep has a period's credit to its loss
    have hmore : 0 ≤ (sweeps : ℚ) - 6 := by linarith
    have hperiods : ((sweeps : ℚ) - 6) * seconds period ≤ span := by linarith
    have hloss : ((sweeps : ℚ) - 6) * (quota.burst.toNat * 2 ^ (-40 : ℤ))
        ≤ quota.perSecond * span := by
      calc ((sweeps : ℚ) - 6) * (quota.burst.toNat * 2 ^ (-40 : ℤ))
          ≤ ((sweeps : ℚ) - 6) * (quota.perSecond * seconds period) :=
            mul_le_mul_of_nonneg_left hpaced.burst_le hmore
        _ = quota.perSecond * (((sweeps : ℚ) - 6) * seconds period) := by ring
        _ ≤ quota.perSecond * span :=
            mul_le_mul_of_nonneg_left hperiods hrate
    have hsplit : quota.slack
        = quota.burst.toNat * 2 ^ (-40 : ℤ) * 2 ^ (-9 : ℤ) := by
      unfold Quota.slack
      norm_num
      ring
    have hshare := mul_le_mul_of_nonneg_right hloss hunit
    rw [mul_assoc, ← hsplit] at hshare
    linarith

/-- A bucket that is still there was credited for less than two bursts. -/
theorem Trace.credit_lt (hquota : quota.Usable)
    (ht : Trace quota period deadline asked sweeps bucket)
    (hb : bucket.Sound quota) (hpaced : quota.Paced period) :
    quota.perSecond * seconds (bucket.creditedAt - asked)
      < 2 * quota.burst.toNat := by
  have hone := hquota.one_le_burst
  have htokens := hb.magnitude_le
  have hcredit := ht.credit_le
  have hloss := ht.loss_le hquota hpaced
  unfold Quota.slack at hcredit hloss
  norm_num at hcredit hloss
  linarith

/-- So its client asked not longer ago than it takes to accrue two bursts,
and the time since its last credit. -/
theorem Trace.recent (hquota : quota.Usable)
    (ht : Trace quota period deadline asked sweeps bucket)
    (hb : bucket.Sound quota) (hpaced : quota.Paced period)
    (hnow : now < deadline + nanosPerMilli) :
    seconds (now - asked)
      ≤ 2 * quota.burst.toNat / quota.perSecond + 2 * seconds period := by
  have hdeadline := ht.deadline_le
  have hperiod := hpaced.milli_le
  have hspan : now - asked ≤ (bucket.creditedAt - asked) + 2 * period := by
    omega
  have hseconds := seconds_mono hspan
  have hcredit : seconds (bucket.creditedAt - asked)
      ≤ 2 * quota.burst.toNat / quota.perSecond := by
    rw [le_div_iff₀ hquota.perSecond_pos, mul_comm]
    exact (ht.credit_lt hquota hb hpaced).le
  rw [seconds_add, seconds_mul] at hseconds
  push_cast at hseconds
  linarith

namespace Limiter

-- ============================================================= requests

/-- Who asks in a run, and when. -/
def asks (limiter : Limiter) : List Action → List (String × ℕ)
  | [] => []
  | .request client :: rest =>
      (client, limiter.now) :: (limiter.perform (.request client)).2.1.asks rest
  | action :: rest => (limiter.perform action).2.1.asks rest

variable {limits : Settings.RateLimit} {limiter last : Limiter}
  {events : List Event} {action : Action} {actions : List Action}
  {past : List (String × ℕ)}

theorem asks_cons_of_ne (hasks : ∀ client, action ≠ .request client)
    (rest : List Action) :
    limiter.asks (action :: rest) = (limiter.perform action).2.1.asks rest := by
  cases action with
  | request client => exact absurd rfl (hasks client)
  | evict | advance | sleep | shutdown | join | release => rfl

-- ============================================================== settled

theorem settled_start (henabled : limits.enabled = true)
    (hword : limits.evictionInterval.nanos < wordBound) :
    (start limits).1.Settled := by
  intro deadline hwaiting
  rw [sweeper_start henabled hword] at hwaiting
  injection hwaiting with hfirst
  have hperiod : nanosPerMilli ≤ deadline := hfirst ▸ Nat.le_max_right ..
  show 0 / nanosPerMilli < unitsCovering nanosPerMilli deadline
  unfold unitsCovering
  unfold nanosPerMilli at *
  omega

theorem Settled.perform (hs : limiter.Settled) (hr : limiter.Running)
    (hgoes : action.ends = false) : (limiter.perform action).2.1.Settled := by
  by_cases hdemand : action.demand? = none
  · cases action with
    | request | evict => cases hdemand
    | advance nanos => exact settled_advance _ _
    | sleep nanos => exact hs.sleep nanos
    | join nanos => exact hs.join nanos
    | shutdown | release => cases hgoes
  · obtain ⟨registry, hmet⟩ := perform_demand hr.enabled hdemand
    rw [hmet]
    exact hs

-- ============================================================== watched

/-- Each tracked client has a trace that goes back to one of its requests. -/
structure Watched (quota : Quota) (period : ℕ) (past : List (String × ℕ))
    (deadline : ℕ) (limiter : Limiter) : Prop where
  sound : limiter.Sound quota
  period_eq : limiter.period = period
  waiting : limiter.sweeper = .waiting deadline
  deadline_le : deadline ≤ limiter.now + period
  traced : ∀ client bucket, limiter.registry.find? client = some bucket →
    ∃ asked sweeps, (client, asked) ∈ past
      ∧ Trace quota period deadline asked sweeps bucket

theorem watched_start (henabled : limits.enabled = true)
    (hword : limits.evictionInterval.nanos < wordBound) :
    Watched limits.quota (Sweeper.period limits.evictionInterval) []
      (Sweeper.period limits.evictionInterval) (start limits).1 where
  sound := sound_start henabled
  period_eq := rfl
  waiting := sweeper_start henabled hword
  deadline_le := Nat.le_add_left ..
  traced := fun _ _ hfind => nomatch hfind

theorem Watched.wait (hquota : quota.Usable)
    (hw : Watched quota period past deadline limiter) (nanos : ℕ) :
    Watched quota period past deadline
      { limiter with now := limiter.now + nanos } := by
  obtain ⟨⟨henabled, rfl, hsound⟩, hperiod, hwaiting, hdeadline, htraced⟩ := hw
  refine ⟨⟨henabled, rfl, ?_⟩, hperiod, hwaiting, ?_, htraced⟩
  · exact hsound.perform hquota (.wait nanos)
  · show deadline ≤ limiter.now + nanos + period
    omega

theorem Watched.beat (hquota : quota.Usable)
    (hw : Watched quota period past deadline limiter)
    (hdue : Sweeper.tickAfter deadline ≤ Sweeper.tickBefore limiter.now) :
    Watched quota period past (Sweeper.nextDeadline limiter.now period deadline)
      (limiter.beat deadline) := by
  obtain ⟨⟨henabled, rfl, hsound⟩, rfl, hwaiting, hdeadline, htraced⟩ := hw
  have hpast := Sweeper.le_of_tickAfter_le hdue
  refine ⟨⟨henabled, rfl, ?_⟩, rfl, rfl, ?_, ?_⟩
  · exact hsound.perform hquota .sweep
  · show _ ≤ limiter.now + limiter.period
    unfold Sweeper.nextDeadline
    split <;> omega
  · intro client bucket hfind
    obtain ⟨old, hold, rfl, hpartial⟩ :=
      Registry.find?_sweep_eq_some hsound.distinct hfind
    obtain ⟨asked, sweeps, hmem, htrace⟩ := htraced client old hold
    refine ⟨asked, sweeps + 1, hmem, ?_⟩
    exact htrace.refill hquota (hsound.sound client old hold) hpast
      (hsound.credited client old hold) hpartial

theorem Elapses.watched (hquota : quota.Usable)
    (h : Elapses limiter events last)
    (hw : Watched quota period past deadline limiter) :
    ∃ next, Watched quota period past next last := by
  induction h generalizing deadline with
  | rest limiter => exact ⟨deadline, hw⟩
  | wait nanos _ ih => exact ih (hw.wait hquota nanos)
  | beat hwaiting hdue _ ih =>
      have hsame := hw.waiting
      rw [hwaiting] at hsame
      injection hsame with hsame
      subst hsame
      exact ih (hw.beat hquota hdue)

theorem Watched.request (hquota : quota.Usable)
    (hw : Watched quota period past deadline limiter) (hs : limiter.Settled)
    (client : String) :
    Watched quota period (past ++ [(client, limiter.now)]) deadline
      (limiter.perform (.request client)).2.1 := by
  have hclose := hs.now_lt hw.waiting
  obtain ⟨⟨henabled, rfl, hsound⟩, hperiod, hwaiting, hdeadline, htraced⟩ := hw
  have hasked : (limiter.perform (.request client)).2.1 = { limiter with
      registry := (limiter.registry.request limiter.now client).2 } := by
    simp [perform, Limiter.request, henabled]
  rw [hasked]
  refine ⟨⟨henabled, rfl, ?_⟩, hperiod, hwaiting, hdeadline, ?_⟩
  · exact hsound.perform hquota (.request client)
  · intro other bucket hfind
    rw [Registry.find?_request] at hfind
    by_cases hown : other = client
    · rw [if_pos hown] at hfind
      obtain rfl := Option.some.inj hfind
      refine ⟨limiter.now, 0, ?_, trace_draw hdeadline ?_ _⟩
      · rw [hown]
        simp
      · unfold nanosPerMilli at hclose
        unfold Sweeper.tolerance
        omega
    · rw [if_neg hown] at hfind
      obtain ⟨asked, sweeps, hmem, htrace⟩ := htraced other bucket hfind
      exact ⟨asked, sweeps, List.mem_append_left _ hmem, htrace⟩

/-- What an action does to the traces, if it neither sweeps on demand nor
ends the sweeper. -/
theorem Watched.perform (hquota : quota.Usable)
    (hw : Watched quota period past deadline limiter) (hs : limiter.Settled)
    (hr : limiter.Running) (hgoes : action.ends = false)
    (hevict : action ≠ .evict) :
    ∃ next, Watched quota period (past ++ limiter.asks [action]) next
      (limiter.perform action).2.1 := by
  by_cases hdemand : action.demand? = none
  · have hnobody : limiter.asks [action] = [] := by
      apply asks_cons_of_ne
      intro client hrequest
      rw [hrequest] at hdemand
      cases hdemand
    obtain ⟨joinable, hpassage⟩ := hr.elapses hdemand hgoes
    have hsame : Watched quota period past deadline { limiter with joinable } :=
      ⟨⟨hw.sound.enabled, hw.sound.quota_eq, hw.sound.sound⟩, hw.period_eq,
        hw.waiting, hw.deadline_le, hw.traced⟩
    rw [hnobody, List.append_nil]
    exact hpassage.watched hquota hsame
  · cases action with
    | request client => exact ⟨deadline, hw.request hquota hs client⟩
    | evict => exact absurd rfl hevict
    | advance | sleep | shutdown | join | release => exact absurd rfl hdemand

theorem Watched.run (hquota : quota.Usable)
    (hw : Watched quota period past deadline limiter) (hs : limiter.Settled)
    (hr : limiter.Running)
    (hgoes : ∀ action ∈ actions, action.ends = false ∧ action ≠ .evict) :
    (limiter.run actions).2.1.Settled
      ∧ ∃ next, Watched quota period (past ++ limiter.asks actions) next
        (limiter.run actions).2.1 := by
  induction actions generalizing limiter past deadline with
  | nil =>
      refine ⟨hs, deadline, ?_⟩
      rw [asks, List.append_nil]
      exact hw
  | cons action actions ih =>
      rw [List.forall_mem_cons] at hgoes
      obtain ⟨⟨haction, hevict⟩, hrest⟩ := hgoes
      obtain ⟨next, hnext⟩ := hw.perform hquota hs hr haction hevict
      have hlater := ih hnext (hs.perform hr haction) (hr.perform haction).1
        hrest
      have hsplit : limiter.asks (action :: actions) = limiter.asks [action]
          ++ (limiter.perform action).2.1.asks actions := by
        cases action <;> rfl
      rw [hsplit, ← List.append_assoc]
      exact hlater

-- ======================================================== the theorem

/-- A sweeper of an enabled limiter, at a pace at which a period's credit is
not lost in the burst. After any run without a sweep on demand and without an
end, each tracked client has asked within the time in which two bursts accrue
and two more periods, so there are no more of them than have asked in that
time. -/
theorem tracked_asked_recently (hvalid : limits.fault? = none)
    (henabled : limits.enabled = true)
    (hword : limits.evictionInterval.nanos < wordBound)
    (hpace : limits.burst.toNat * 2 ^ (-40 : ℤ) ≤ limits.quota.perSecond
      * seconds (Sweeper.period limits.evictionInterval))
    (hgoes : ∀ action ∈ actions, action.ends = false ∧ action ≠ .evict) :
    let first := (start limits).1
    let later := (first.run actions).2.1
    let window := 2 * limits.burst.toNat / limits.quota.perSecond
      + 2 * seconds (Sweeper.period limits.evictionInterval)
    let callers := ((first.asks actions).filter fun ask =>
      ask.2 ≤ later.now ∧ seconds (later.now - ask.2) ≤ window).map Prod.fst
    (∀ client, later.registry.contains client = true → client ∈ callers)
      ∧ later.registry.size ≤ callers.dedup.length := by
  intro first later window callers
  have hquota := ((Settings.RateLimit.fault?_eq_none_iff henabled).mp hvalid).1
  have hpaced : limits.quota.Paced (Sweeper.period limits.evictionInterval) :=
    ⟨Nat.le_max_right .., hpace⟩
  obtain ⟨hsettled, next, hwatched⟩ :=
    (watched_start henabled hword).run hquota (settled_start henabled hword)
      (running_start henabled hword) hgoes
  have hnow := hsettled.now_lt hwatched.waiting
  obtain ⟨⟨-, hsame, hsound⟩, -, -, -, htraced⟩ := hwatched
  have hrecent : ∀ client, later.registry.contains client = true →
      client ∈ callers := by
    intro client hcontains
    obtain ⟨bucket, hfind⟩ := Option.isSome_iff_exists.mp hcontains
    obtain ⟨asked, sweeps, hmem, htrace⟩ := htraced client bucket hfind
    have hb := hsound.sound client bucket hfind
    rw [show later.timed.registry.quota = _ from hsame] at hb
    have hpast := htrace.asked_le.trans (hsound.credited client bucket hfind)
    have hspan := htrace.recent hquota hb hpaced hnow
    refine List.mem_map.mpr ⟨(client, asked), ?_, rfl⟩
    exact List.mem_filter.mpr ⟨hmem, decide_eq_true ⟨hpast, hspan⟩⟩
  refine ⟨hrecent, ?_⟩
  have hclients : later.registry.clients ⊆ callers.dedup := by
    intro client hmem
    rw [List.mem_dedup]
    exact hrecent client (Registry.contains_iff_mem_clients.mpr hmem)
  have hcount := (hsound.distinct.subperm hclients).length_le
  rwa [Registry.clients, List.length_map] at hcount

/-- Ten tokens per second, a burst of two, and ten sweeps per second: after
two tenths of a second the first client is forgotten and the second one is
not. -/
theorem tracked_asked_recently_of_ten_per_second :
    let limits : Settings.RateLimit := ⟨true, 10, 2, .ofNanos 100000000⟩
    let actions : List Action := [.request "a", .request "a", .sleep 150000000,
      .request "b", .sleep 50000000]
    let first := (start limits).1
    let later := (first.run actions).2.1
    let window := 2 * limits.burst.toNat / limits.quota.perSecond
      + 2 * seconds (Sweeper.period limits.evictionInterval)
    let callers := ((first.asks actions).filter fun ask =>
      ask.2 ≤ later.now ∧ seconds (later.now - ask.2) ≤ window).map Prod.fst
    limits.fault? = none ∧ limits.enabled = true
      ∧ limits.evictionInterval.nanos < wordBound
      ∧ limits.burst.toNat * 2 ^ (-40 : ℤ) ≤ limits.quota.perSecond
        * seconds (Sweeper.period limits.evictionInterval)
      ∧ (∀ action ∈ actions, action.ends = false ∧ action ≠ .evict)
      ∧ first.asks actions = [("a", 0), ("a", 0), ("b", 150000000)]
      ∧ later.registry.clients = ["b"]
      ∧ "b" ∈ callers ∧ 1 ≤ callers.dedup.length := by
  intro limits actions first later window callers
  have hvalid : limits.fault? = none := by decide +kernel
  have hword : limits.evictionInterval.nanos < wordBound := by decide
  have hrate : limits.quota.perSecond = 10 := by decide +kernel
  have hperiod : Sweeper.period limits.evictionInterval = 100000000 := by decide
  have hpace : limits.burst.toNat * 2 ^ (-40 : ℤ) ≤ limits.quota.perSecond
      * seconds (Sweeper.period limits.evictionInterval) := by
    rw [hrate, hperiod, show limits.burst.toNat = 2 from rfl]
    norm_num [seconds, nanosPerSecond]
  have hgoes : ∀ action ∈ actions, action.ends = false ∧ action ≠ .evict := by
    decide
  have hclients : later.registry.clients = ["b"] := by decide +kernel
  obtain ⟨hrecent, hcount⟩ :=
    tracked_asked_recently hvalid rfl hword hpace hgoes
  have htracked : later.registry.contains "b" = true := by
    rw [Registry.contains_iff_mem_clients, hclients]
    simp
  have hsize : later.registry.size = 1 := by
    decide +kernel
  rw [show ((start limits).1.run actions).2.1.registry.size = 1 from hsize]
    at hcount
  exact ⟨hvalid, rfl, hword, hpace, hgoes, by decide +kernel, hclients,
    hrecent "b" htracked, hcount⟩

end Limiter

end Turnstile
