/-
The token counts of a run against exact accounts.

An exact account follows the client through the run: it is credited at
every request of the client and at every sweep, and pays for the requests
that were admitted. It starts full; since a full account stays full until
it pays, it does not matter that it is opened before the client is first
seen.

# The invariant

`Close` says that after n refills the registry's count and the balance are
at most n slacks apart, the slack being what one refill may be off by
(Bucket/Accuracy.lean). A count that the registry has forgotten reads as
the burst. The steps:

- A request and a sweep that finds the client tracked add one slack
  (`close_refill`); taking a token is exact on both sides
  (`close_settle`).
- A sweep that removes the bucket does so at the burst exactly, and from
  then on the balance only comes nearer to it (`close_forgotten`).

# Stretches

How much a stretch of the run admits is read off the exact account alone:
what it is worth at the present instant, plus what was admitted, grows by
no more than the rate (`worth_add_allowed_le`). The account is worth at
most the burst before the stretch, and after it at least minus the slacks
of the stretch.

Chain (account): Bucket/Accuracy.lean and Registry/Invariant.lean below;
Registry/Padding.lean above.
-/
import Mathlib
import Turnstile.Proofs.Bucket.Accuracy
import Turnstile.Proofs.Registry.Invariant

namespace Turnstile

-- =================================================== the exact account

/-- What a request of the client or a sweep does to its exact account. -/
def Account.touch (quota : Quota) (account : Account) :
    Registry.Touch → Account
  | .asked now answer => (account.refill quota now).settle answer
  | .swept now => account.refill quota now

def Account.follow (quota : Quota) (account : Account)
    (touches : List Registry.Touch) : Account :=
  touches.foldl (Account.touch quota) account

theorem Account.follow_append (quota : Quota) (account : Account)
    (touches rest : List Registry.Touch) :
    account.follow quota (touches ++ rest)
      = (account.follow quota touches).follow quota rest :=
  List.foldl_append

namespace Registry

/-- The exact account of a client after a history that begins at instant
zero. -/
def exactAccount (quota : Quota) (client : String) (steps : List Step) :
    Account :=
  (Account.full quota 0).follow quota (touches client steps)

/-- The token count of a client, full if the client is not tracked. -/
def tokensOf (registry : Registry) (client : String) : Binary64 :=
  ((registry.find? client).map Bucket.tokens).getD registry.quota.capacity

variable {quota : Quota} {state : Timed} {client : String} {account : Account}
  {bucket : Bucket} {n m now : ℕ}

-- ======================================================= the invariant

/-- The count and the balance are at most `n` slacks apart, and credited
up to the same instant. -/
def Close (quota : Quota) (n : ℕ) (account : Account) : Option Bucket → Prop
  | some bucket =>
      bucket.creditedAt = account.creditedAt
        ∧ |bucket.tokens.magnitude - account.balance| ≤ n * quota.slack
  | none => quota.burst.toNat - account.balance ≤ n * quota.slack

theorem close_none :
    Close quota n account none
      ↔ (quota.burst.toNat : ℚ) - account.balance ≤ n * quota.slack := Iff.rfl

/-- Close, with a balance that is at most the burst and not credited from
the future. -/
structure Tracks (quota : Quota) (state : Timed) (client : String)
    (n : ℕ) (account : Account) : Prop where
  credited : account.creditedAt ≤ state.now
  balance_le : account.balance ≤ quota.burst.toNat
  close : Close quota n account (state.registry.find? client)

theorem slack_mono (quota : Quota) (hnm : n ≤ m) :
    n * quota.slack ≤ m * quota.slack :=
  mul_le_mul_of_nonneg_right (by exact_mod_cast hnm) quota.slack_nonneg

theorem close_refill (hquota : quota.Usable) (hb : bucket.Sound quota)
    (hnow : now ≤ longestNanos) (hclose : Close quota n account (some bucket)) :
    Close quota (n + 1) (account.refill quota now)
      (some (bucket.refill quota now)) := by
  obtain ⟨hage, hdiff⟩ := hclose
  refine ⟨rfl, ?_⟩
  have hround := hb.refill_error hquota
    (isFinite_secondsOf ((Nat.sub_le now _).trans hnow))
  have hexact := Account.abs_refill_sub_refill_le quota now
    (show (Account.mk bucket.tokens.magnitude bucket.creditedAt).creditedAt
      = account.creditedAt from hage)
  have hsum := abs_sub_le (bucket.refill quota now).tokens.magnitude
    ((Account.mk bucket.tokens.magnitude bucket.creditedAt).refill quota
      now).balance
    (account.refill quota now).balance
  push_cast
  rw [add_mul, one_mul]
  linarith

/-- The account of a forgotten client only comes nearer to the burst. -/
theorem close_forgotten (hquota : quota.Usable)
    (hle : account.balance ≤ quota.burst.toNat)
    (hclose : Close quota n account none) (now : ℕ) :
    Close quota n (account.refill quota now) none := by
  have hgrow := account.le_refill_balance hquota hle now
  rw [close_none] at hclose ⊢
  linarith

/-- The bucket that a request of the client draws from, refilled, against
the refilled account; a new bucket is as good as the forgotten one. -/
theorem close_refill_bucketOf (hquota : state.registry.quota.Usable)
    (hs : state.Sound) (hnow : state.now ≤ longestNanos)
    (htracks : Tracks state.registry.quota state client n account) :
    Close state.registry.quota (n + 1)
      (account.refill state.registry.quota state.now)
      (some ((state.registry.bucketOf state.now client).refill
        state.registry.quota state.now)) := by
  have hclose := htracks.close
  unfold bucketOf
  cases hfind : state.registry.find? client with
  | some bucket =>
      rw [hfind] at hclose
      exact close_refill hquota (hs.sound client bucket hfind) hnow hclose
  | none =>
      rw [hfind] at hclose
      have hnear := close_none.mp
        (close_forgotten hquota htracks.balance_le hclose state.now)
      have hle := account.refill_balance_le_burst state.registry.quota state.now
      have hslack := slack_mono state.registry.quota (Nat.le_succ n)
      rw [Option.getD_none, Bucket.refill_of_full hquota rfl]
      refine ⟨rfl, ?_⟩
      show |state.registry.quota.capacity.magnitude - _| ≤ _
      rw [Quota.capacity_magnitude, abs_of_nonneg (sub_nonneg.mpr hle)]
      exact hnear.trans hslack

/-- A request pays on both sides or on neither. -/
theorem close_settle (hb : (bucket.refill quota now).Sound quota)
    (hclose : Close quota n account (some (bucket.refill quota now))) :
    Close quota n
      (account.settle (if (bucket.draw quota now).1 then .allowed
        else .denied quota.retryAfter))
      (some (bucket.draw quota now).2) := by
  rcases bucket.draw_cases quota now with ⟨hone, hdraw⟩ | ⟨-, hdraw⟩
  · rw [hdraw]
    refine ⟨hclose.1, ?_⟩
    show |((bucket.refill quota now).tokens - 1).magnitude - (account.balance - 1)|
      ≤ _
    rw [(hb.take hone).2, sub_sub_sub_cancel_right]
    exact hclose.2
  · rw [hdraw]
    exact hclose

/-- A sweep refills a tracked client, and removes it at the burst
exactly. -/
theorem close_sweep (hquota : quota.Usable) (hb : bucket.Sound quota)
    (hnow : now ≤ longestNanos) (hclose : Close quota n account (some bucket)) :
    Close quota (n + 1) (account.refill quota now)
      (((some bucket).map (·.refill quota now)).filter (·.isPartial quota)) := by
  have hrefilled := close_refill hquota hb hnow hclose
  rw [Option.map_some]
  cases hpartial : (bucket.refill quota now).isPartial quota with
  | true =>
      rw [Option.filter_some_pos hpartial]
      exact hrefilled
  | false =>
      have hfull := ((hb.refill hquota now).isPartial_eq_false_iff hquota).mp
        hpartial
      have hdiff := hrefilled.2
      rw [Option.filter_some_neg (by simp [hpartial])]
      rw [hfull, Quota.capacity_magnitude] at hdiff
      exact (le_abs_self _).trans hdiff

-- ================================================================ runs

theorem tracks_start (quota : Quota) (client : String) :
    Tracks quota (Timed.start quota) client 0 (Account.full quota 0) := by
  refine ⟨Nat.le_refl _, le_rfl, ?_⟩
  show (quota.burst.toNat : ℚ) - quota.burst.toNat ≤ (0 : ℕ) * quota.slack
  rw [sub_self, Nat.cast_zero, zero_mul]

theorem tracks_perform (hquota : quota.Usable)
    (hsame : state.registry.quota = quota) (hs : state.Sound)
    (hnow : state.now ≤ longestNanos)
    (htracks : Tracks quota state client n account) (call : Call) :
    Tracks quota (state.perform call).2 client
      (n + refillCount client (state.history [call]))
      (account.follow quota (touches client (state.history [call]))) := by
  subst hsame
  have hle := account.refill_balance_le_burst state.registry.quota state.now
  cases call using Call.cases_for client with
  | own =>
      have hview := find?_request state.registry state.now client client
      have hclose := close_settle
        ((hs.bucketOf client).refill hquota state.now)
        (close_refill_bucketOf hquota hs hnow htracks)
      rw [if_pos rfl] at hview
      rw [touches_own, refillCount_own]
      refine ⟨?_, ?_, ?_⟩
      · exact (Account.settle_creditedAt ..).le
      · exact (Account.settle_balance_le ..).trans hle
      · show Close _ _ _ ((state.registry.request state.now client).2.find? client)
        rw [hview]
        exact hclose
  | other other hother =>
      have hview := find?_request state.registry state.now other client
      rw [if_neg hother.symm] at hview
      rw [touches_other _ hother, refillCount_other _ hother]
      refine ⟨htracks.credited, htracks.balance_le, ?_⟩
      show Close _ _ _ ((state.registry.request state.now other).2.find? client)
      rw [hview]
      exact htracks.close
  | sweep =>
      have hclose := htracks.close
      rw [touches_sweep, refillCount_sweep]
      refine ⟨Nat.le_refl _, hle, ?_⟩
      show Close _ _ _ ((state.registry.sweep state.now).find? client)
      rw [find?_sweep state.now client hs.distinct, contains]
      cases hfind : state.registry.find? client with
      | some bucket =>
          rw [hfind] at hclose
          exact close_sweep hquota (hs.sound client bucket hfind) hnow hclose
      | none =>
          rw [hfind] at hclose
          exact close_forgotten hquota htracks.balance_le hclose state.now
  | wait nanos =>
      exact ⟨htracks.credited.trans (Nat.le_add_right ..), htracks.balance_le,
        htracks.close⟩

/-- A whole run, on both sides. -/
theorem tracks_run (hquota : quota.Usable) (calls : List Call) :
    ∀ {state : Timed} {n : ℕ} {account : Account},
      state.registry.quota = quota → state.Sound →
      (state.run calls).2.now ≤ longestNanos →
      Tracks quota state client n account →
      Tracks quota (state.run calls).2 client
        (n + refillCount client (state.history calls))
        (account.follow quota (touches client (state.history calls))) := by
  induction calls with
  | nil =>
      intro state n account _ _ _ htracks
      exact htracks
  | cons call rest ih =>
      intro state n account hsame hs hclock htracks
      rw [run_cons] at hclock ⊢
      have hnow := (now_le_perform state call).trans
        ((now_le_run (state.perform call).2 rest).trans hclock)
      have hstep := tracks_perform hquota hsame hs hnow htracks call
      have hrest := ih ((quota_perform state call).trans hsame)
        (hs.perform (hsame ▸ hquota) call) hclock hstep
      rw [refillCount_cons, touches_cons, Account.follow_append, ← Nat.add_assoc]
      exact hrest

/-- The answer to a request, against the balance at its instant. -/
theorem answer_near (hquota : quota.Usable)
    (hsame : state.registry.quota = quota) (hs : state.Sound)
    (hnow : state.now ≤ longestNanos)
    (htracks : Tracks quota state client n account) :
    ((state.registry.request state.now client).1 = .allowed
        ∧ 1 - ↑(n + 1) * quota.slack ≤ (account.refill quota state.now).balance)
      ∨ ((state.registry.request state.now client).1 = .denied quota.retryAfter
        ∧ (account.refill quota state.now).balance
          < 1 + ↑(n + 1) * quota.slack) := by
  subst hsame
  obtain ⟨-, hnear⟩ := close_refill_bucketOf hquota hs hnow htracks
  obtain ⟨hlow, hhigh⟩ := abs_le.mp hnear
  have hone := ((hs.bucketOf client).refill hquota state.now).one_le_iff
  unfold request
  rcases Bucket.draw_cases state.registry.quota state.now
    (state.registry.bucketOf state.now client) with ⟨htoken, hdraw⟩ | ⟨hnone, hdraw⟩
  · left
    have hcount := hone.mp htoken
    rw [hdraw]
    exact ⟨rfl, by linarith⟩
  · right
    have hcount := not_le.mp (mt hone.mpr hnone)
    rw [hdraw]
    exact ⟨rfl, by linarith⟩

-- ============================================================ stretches

theorem credited_perform (quota : Quota) (client : String)
    (hpast : account.creditedAt ≤ state.now) (call : Call) :
    (account.follow quota (touches client (state.history [call]))).creditedAt
      ≤ (state.perform call).2.now := by
  cases call using Call.cases_for client with
  | own =>
      rw [touches_own]
      exact (Account.settle_creditedAt ..).le
  | other other hother =>
      rw [touches_other _ hother]
      exact hpast
  | sweep => exact Nat.le_refl _
  | wait nanos => exact hpast.trans (Nat.le_add_right ..)

/-- What a call admits, the worth of the account pays for. -/
theorem worth_perform (client : String) (hquota : quota.Usable)
    (hpast : account.creditedAt ≤ state.now) (call : Call) :
    ((account.follow quota (touches client (state.history [call]))).refill quota
        (state.perform call).2.now).balance
      + allowedCount client (state.history [call])
    ≤ (account.refill quota state.now).balance
      + quota.perSecond * seconds ((state.perform call).2.now - state.now) := by
  have hwait := Account.refill_balance_le_refill_add hquota hpast
    (now_le_perform state call)
  unfold allowedCount
  cases call using Call.cases_for client with
  | own =>
      have hrest := ((account.refill quota state.now).settle
        (state.registry.request state.now client).1).refill_balance_le_add
          quota state.now
      have hpaid := (account.refill quota state.now).settle_balance_add
        (state.registry.request state.now client).1
      rw [Account.settle_creditedAt] at hrest
      rw [touches_own, List.countP_cons]
      show (((account.refill quota state.now).settle _).refill quota
        state.now).balance
          + ((0 + if (state.registry.request state.now client).1.isAllowed
            then 1 else 0 : ℕ) : ℚ) ≤ _
      -- the admission has left the balance
      rw [Nat.zero_add, Nat.cast_ite, Nat.cast_one, Nat.cast_zero, ← hpaid]
      exact (add_le_add hrest le_rfl).trans_eq (add_right_comm ..)
  | other other hother =>
      rw [touches_other _ hother]
      exact (add_zero _).trans_le hwait
  | sweep =>
      exact (add_zero _).trans_le
        ((account.refill quota state.now).refill_balance_le_add quota state.now)
  | wait nanos => exact (add_zero _).trans_le hwait

/-- What a run admits, the worth of the account pays for. -/
theorem worth_add_allowed_le (client : String) (hquota : quota.Usable)
    (calls : List Call) :
    ∀ {state : Timed} {account : Account}, account.creditedAt ≤ state.now →
      ((account.follow quota (touches client (state.history calls))).refill quota
          (state.run calls).2.now).balance
        + allowedCount client (state.history calls)
      ≤ (account.refill quota state.now).balance
        + quota.perSecond * seconds ((state.run calls).2.now - state.now) := by
  induction calls with
  | nil =>
      intro state account hpast
      have hcredit := mul_nonneg hquota.perSecond_nonneg
        (seconds_nonneg (state.now - state.now))
      exact (add_zero _).trans_le (le_add_of_nonneg_right hcredit)
  | cons call rest ih =>
      intro state account hpast
      have hstep := worth_perform client hquota hpast call
      have hrest := ih (credited_perform quota client hpast call)
      have hspan : seconds ((state.run (call :: rest)).2.now - state.now)
          = seconds ((state.perform call).2.now - state.now)
            + seconds (((state.perform call).2.run rest).2.now
              - (state.perform call).2.now) := by
        have hmid := now_le_perform state call
        have hend := now_le_run (state.perform call).2 rest
        rw [run_cons, ← seconds_add]
        congr 1
        omega
      rw [touches_cons, allowedCount_cons, Account.follow_append, hspan, mul_add]
      push_cast
      show (((account.follow quota _).follow quota _).refill quota
        ((state.perform call).2.run rest).2.now).balance + _ ≤ _
      linarith

/-- The balance is no further below zero than its error. -/
theorem Tracks.neg_le_balance (htracks : Tracks quota state client n account) :
    -(n * quota.slack) ≤ account.balance := by
  have hclose := htracks.close
  cases hfind : state.registry.find? client with
  | some bucket =>
      rw [hfind] at hclose
      have hnear := (abs_le.mp hclose.2).2
      have htokens := Binary64.magnitude_nonneg bucket.tokens
      linarith
  | none =>
      rw [hfind] at hclose
      have hnear := close_none.mp hclose
      have hburst : (0 : ℚ) ≤ quota.burst.toNat := Nat.cast_nonneg _
      linarith

/-- The account that has the registry's own count. -/
def accountOf (registry : Registry) (now : ℕ) (client : String) : Account :=
  ⟨(registry.bucketOf now client).tokens.magnitude,
    (registry.bucketOf now client).creditedAt⟩

theorem tracks_accountOf (hs : state.Sound) (client : String) :
    Tracks state.registry.quota state client 0
      (state.registry.accountOf state.now client) := by
  have hle := (hs.bucketOf client).magnitude_le
  unfold accountOf
  unfold bucketOf at hle ⊢
  cases hfind : state.registry.find? client with
  | some bucket =>
      rw [hfind] at hle
      refine ⟨hs.credited client bucket hfind, hle, ?_⟩
      rw [hfind]
      refine ⟨rfl, ?_⟩
      rw [Nat.cast_zero, zero_mul]
      exact (abs_eq_zero.mpr (sub_self _)).le
  | none =>
      rw [hfind] at hle
      refine ⟨Nat.le_refl _, hle, ?_⟩
      rw [hfind]
      show (state.registry.quota.burst.toNat : ℚ)
        - state.registry.quota.capacity.magnitude ≤ _
      rw [Quota.capacity_magnitude, sub_self, Nat.cast_zero, zero_mul]

theorem allowedCount_le (client : String) (hquota : quota.Usable)
    (hsame : state.registry.quota = quota) (hs : state.Sound) (calls : List Call)
    (hclock : (state.run calls).2.now ≤ longestNanos) :
    (allowedCount client (state.history calls) : ℚ)
      ≤ quota.burst.toNat
        + quota.perSecond * seconds ((state.run calls).2.now - state.now)
        + refillCount client (state.history calls) * quota.slack := by
  subst hsame
  have hopen := tracks_accountOf hs client
  have hworth := worth_add_allowed_le client hquota calls hopen.credited
  have hend := tracks_run hquota calls rfl hs hclock hopen
  have hfloor := hend.neg_le_balance
  have hgrow := Account.le_refill_balance hquota hend.balance_le
    (state.run calls).2.now
  have hburst := Account.refill_balance_le_burst state.registry.quota state.now
    (state.registry.accountOf state.now client)
  rw [Nat.zero_add] at hfloor
  linarith

-- ======================================================== the theorem

theorem follow_full (hquota : quota.Usable) {swept : List Touch}
    (hswept : ∀ touch ∈ swept, ∃ instant, touch = .swept instant) :
    ∀ opened, ∃ later,
      (Account.full quota opened).follow quota swept
        = Account.full quota later := by
  induction swept with
  | nil => exact fun opened => ⟨opened, rfl⟩
  | cons touch swept ih =>
      intro opened
      obtain ⟨instant, rfl⟩ := hswept touch List.mem_cons_self
      have hrest := ih
        (fun other hmem => hswept other (List.mem_cons_of_mem _ hmem)) instant
      rwa [← Account.refill_full hquota opened instant] at hrest

/-- The exact account may as well be opened when the client is first
seen. -/
theorem exactAccount_eq (hquota : quota.Usable) {swept rest : List Touch}
    {steps : List Step} {answer : Admission}
    (hswept : ∀ touch ∈ swept, ∃ instant, touch = .swept instant)
    (htouches : touches client steps = swept ++ .asked now answer :: rest) :
    exactAccount quota client steps
      = (Account.full quota now).follow quota (.asked now answer :: rest) := by
  obtain ⟨later, hlater⟩ := follow_full hquota hswept 0
  unfold exactAccount
  rw [htouches, Account.follow_append, hlater]
  show (((Account.full quota later).refill quota now).settle answer).follow
      quota rest
    = (((Account.full quota now).refill quota now).settle answer).follow
      quota rest
  rw [Account.refill_full hquota, Account.refill_full hquota]

/-- The count of a client is a number within the error of the account. -/
theorem Tracks.tokensOf (hquota : quota.Usable)
    (hsame : state.registry.quota = quota) (hs : state.Sound)
    (htracks : Tracks quota state client n account) :
    ∃ count, (tokensOf state.registry client).toRat? = some count
      ∧ |count - account.balance| ≤ n * quota.slack
      ∧ (state.registry.contains client = false → ∀ later,
        |count - (account.refill quota later).balance| ≤ n * quota.slack) := by
  subst hsame
  have hclose := htracks.close
  unfold Registry.tokensOf contains
  cases hfind : state.registry.find? client with
  | some bucket =>
      have hb := hs.sound client bucket hfind
      rw [hfind] at hclose
      refine ⟨_, hb.nonneg.toRat?_eq hb.isFinite, hclose.2, fun h => nomatch h⟩
  | none =>
      rw [hfind] at hclose
      have hcapacity := state.registry.quota.capacity_nonneg.toRat?_eq
        state.registry.quota.capacity_isFinite
      refine ⟨_, hcapacity, ?_, fun _ later => ?_⟩
      · show |state.registry.quota.capacity.magnitude - _| ≤ _
        rw [Quota.capacity_magnitude,
          abs_of_nonneg (sub_nonneg.mpr htracks.balance_le)]
        exact hclose
      · have hle := account.refill_balance_le_burst state.registry.quota later
        show |state.registry.quota.capacity.magnitude - _| ≤ _
        rw [Quota.capacity_magnitude, abs_of_nonneg (sub_nonneg.mpr hle)]
        exact close_forgotten hquota htracks.balance_le hclose later

/-- A run in binary64 against the exact account of a client, as long as the
clock fits a duration. After n refills the count is within n slacks of the
balance; a stretch of the run admits no more than the burst, the rate times
its length and a slack for each refill in it; and a request is denied only
if the balance is within the error below one token. -/
theorem run_near_exactAccount (hquota : quota.Usable) (client : String)
    (calls : List Call)
    (hclock : ((Timed.start quota).run calls).2.now ≤ longestNanos) :
    let steps := (Timed.start quota).history calls
    let state := ((Timed.start quota).run calls).2
    let account := exactAccount quota client steps
    (∃ count, (tokensOf state.registry client).toRat? = some count
        ∧ |count - account.balance| ≤ refillCount client steps * quota.slack
        ∧ (state.registry.contains client = false → ∀ later,
          |count - (account.refill quota later).balance|
            ≤ refillCount client steps * quota.slack))
      ∧ (∀ before stretch, calls = before ++ stretch →
        let early := ((Timed.start quota).run before).2
        (allowedCount client (early.history stretch) : ℚ)
          ≤ quota.burst.toNat
            + quota.perSecond * seconds (state.now - early.now)
            + refillCount client (early.history stretch) * quota.slack)
      ∧ (∀ wait, (state.registry.request state.now client).1 = .denied wait →
        (account.refill quota state.now).balance
          < 1 + ↑(refillCount client steps + 1) * quota.slack) := by
  intro steps state account
  have hstart := sound_start quota
  obtain ⟨hs, hsame⟩ := hstart.run hquota calls
  have htracks : Tracks quota state client (refillCount client steps) account := by
    have hrun := tracks_run hquota calls rfl hstart hclock
      (tracks_start quota client)
    rwa [Nat.zero_add] at hrun
  refine ⟨htracks.tokensOf hquota hsame hs, ?_, ?_⟩
  · rintro before stretch rfl
    intro early
    obtain ⟨hearly, hkept⟩ := hstart.run hquota before
    have hcut := run_append (Timed.start quota) before stretch
    have hstretch := allowedCount_le client hquota hkept hearly stretch
      (hcut ▸ hclock)
    rw [← hcut] at hstretch
    exact hstretch
  · intro wait hdenied
    rcases answer_near hquota hsame hs hclock htracks with
      ⟨hallowed, -⟩ | ⟨-, hless⟩
    · rw [hallowed] at hdenied
      cases hdenied
    · exact hless

/-- Two requests drain a bucket of two, a sweep comes on the way, and after
a tenth of a second there is one token more. -/
theorem run_near_exactAccount_of_ten_per_second :
    let quota : Quota := ⟨.ofNat 10, 2⟩
    let calls := [.request "a", .request "b", .request "a", .wait 50000000, .sweep,
      .wait 50000000, .request "a", .request "a"]
    let state := ((Timed.start quota).run calls).2
    quota.Usable ∧ state.now ≤ longestNanos
      ∧ state.registry.contains "a" = true
      ∧ (allowedCount "a" ((Timed.start quota).history calls) : ℚ)
        ≤ quota.burst.toNat + quota.perSecond * seconds (state.now - 0)
          + refillCount "a" ((Timed.start quota).history calls) * quota.slack := by
  intro quota calls state
  have hquota : quota.Usable := ⟨by decide +kernel, by decide +kernel, by decide⟩
  have hclock : state.now ≤ longestNanos := by decide +kernel
  refine ⟨hquota, hclock, by decide +kernel, ?_⟩
  exact (run_near_exactAccount hquota "a" calls hclock).2.1 [] calls rfl

end Registry

end Turnstile
