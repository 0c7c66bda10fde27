/-
The registry against the textbook token bucket.

The textbook bucket of a client is an exact account that is opened full at
the client's first request, and that only admissions touch: a request is
admitted if the account, credited up to its instant, holds a whole token,
and then one is paid; a denial leaves no trace, and of sweeps the account
knows nothing (`Account.serve`).

If the rate is a multiple of 1/2048 tokens per second and the clock only
ever moves by multiples of 1/512 seconds, the registry gives the very same
answers (`decisions_eq_textbook`).

# The simulation

Lone.lean has already put a bucket of its own, never removed, in the place
of the registry. `Agrees` relates that bucket to the account: the count is
what the account is worth at the instant up to which the bucket is
credited. The account may be credited up to an earlier one, since an exact
refill on the way changes nothing (`Account.refill_refill`); that is what
makes sweeps and denials invisible here.

- A sweep: `Agrees.refill`.
- A request: `Agrees.refill`, then one token less on both sides
  (`Agrees.take`), or on neither.

Chain (account): Bucket/Exact.lean and Registry/Lone.lean below.
-/
import Mathlib
import Turnstile.Proofs.Bucket.Exact
import Turnstile.Proofs.Registry.Lone

namespace Turnstile

open Binary64

-- ================================================ the textbook bucket

/-- What the textbook bucket answers to requests at the instants; there is
none before the first request. -/
def Account.serve (quota : Quota) : Option Account → List ℕ → List Admission
  | _, [] => []
  | account?, now :: rest =>
      let account := account?.getD (.full quota now)
      let refilled := account.refill quota now
      if 1 ≤ refilled.balance then
        .allowed :: serve quota (some (refilled.settle .allowed)) rest
      else .denied quota.retryAfter :: serve quota (some account) rest

theorem Account.refill_self (quota : Quota) {account : Account}
    (hle : account.balance ≤ quota.burst.toNat) :
    account.refill quota account.creditedAt = account := by
  have hnone : seconds (account.creditedAt - account.creditedAt) = 0 := by
    simp [seconds]
  unfold refill
  rw [hnone, mul_zero, add_zero, min_eq_left hle]

namespace Registry

def Touch.answer? : Touch → Option Admission
  | .asked _ answer => some answer
  | .swept _ => none

def Visit.askedAt? : Visit → Option ℕ
  | .asks now => some now
  | .sweeps _ => none

/-- The answers that the client got, in their order. -/
def decisions (client : String) (steps : List Step) : List Admission :=
  (touches client steps).filterMap Touch.answer?

/-- The instants at which the client asks in a run from the instant `now`. -/
def requestInstants (client : String) (now : ℕ) (calls : List Call) : List ℕ :=
  (visits client now calls).filterMap Visit.askedAt?

def Visit.instant : Visit → ℕ
  | .asks now => now
  | .sweeps now => now

-- ========================================================== the ticks

/-- A 512th of a second. -/
def tickNanos : ℕ := 1953125

/-- The second instant is a whole number of ticks after the first. -/
def TicksTo (early late : ℕ) : Prop :=
  ∃ ticks, late = early + ticks * tickNanos

theorem TicksTo.le {early late : ℕ} (h : TicksTo early late) : early ≤ late := by
  obtain ⟨ticks, rfl⟩ := h
  exact Nat.le_add_right ..

theorem TicksTo.refl (now : ℕ) : TicksTo now now :=
  ⟨0, by simp⟩

theorem TicksTo.trans {early now late : ℕ} (h : TicksTo early now)
    (h' : TicksTo now late) : TicksTo early late := by
  obtain ⟨first, rfl⟩ := h
  obtain ⟨more, rfl⟩ := h'
  exact ⟨first + more, by ring⟩

theorem TicksTo.onGrid {early late : ℕ} (h : TicksTo early late) :
    OnGrid (-9) (seconds (late - early)) := by
  obtain ⟨ticks, rfl⟩ := h
  refine ⟨ticks, ?_⟩
  rw [Nat.add_sub_cancel_left]
  unfold seconds
  push_cast
  norm_num [tickNanos, nanosPerSecond]
  ring

/-- On a clock that moves by ticks, so do the visits. -/
theorem visits_ticks (client : String) (calls : List Call) :
    ∀ now, (∀ nanos, Call.wait nanos ∈ calls → tickNanos ∣ nanos) →
      (now :: (visits client now calls).map Visit.instant).IsChain TicksTo := by
  induction calls with
  | nil =>
      intro now _
      exact .singleton _
  | cons call rest ih =>
      intro now hwaits
      have hrest := ih now fun nanos hmem => hwaits nanos (.tail _ hmem)
      cases call using Call.cases_for client with
      | own =>
          rw [visits_own]
          exact List.isChain_cons_cons.mpr ⟨.refl now, hrest⟩
      | other other hother =>
          rw [visits_other rest hother]
          exact hrest
      | sweep => exact List.isChain_cons_cons.mpr ⟨.refl now, hrest⟩
      | wait nanos =>
          obtain ⟨ticks, hticks⟩ := hwaits nanos (.head _)
          have hlater : TicksTo now (now + nanos) := ⟨ticks, by rw [hticks, mul_comm]⟩
          have hmore := ih (now + nanos) fun more hmem => hwaits more (.tail _ hmem)
          exact hmore.imp_head hlater.trans

-- ===================================================== the simulation

/-- The bucket is sound and on the grid, and holds what the account is worth
at its instant. -/
structure Agrees (quota : Quota) (bucket : Bucket) (account : Account) :
    Prop where
  sound : bucket.Sound quota
  grid : OnGrid (-20) bucket.tokens.magnitude
  credited : account.creditedAt ≤ bucket.creditedAt
  worth : bucket.tokens.magnitude
    = (account.refill quota bucket.creditedAt).balance

variable {quota : Quota} {bucket : Bucket} {account : Account} {now : ℕ}

theorem agrees_full (hquota : quota.Usable) (now : ℕ) :
    Agrees quota (.full quota now) (.full quota now) where
  sound := Bucket.sound_full quota now
  grid := by
    show OnGrid _ quota.capacity.magnitude
    rw [quota.capacity_magnitude]
    exact onGrid_natCast _ (by decide)
  credited := Nat.le_refl _
  worth := by
    show quota.capacity.magnitude = _
    rw [quota.capacity_magnitude, Account.refill_full hquota]
    rfl

/-- A refill of the bucket alone keeps them in agreement. -/
theorem Agrees.refill (hquota : quota.Usable) (hrate : OnGrid (-11) quota.perSecond)
    (h : Agrees quota bucket account) (hticks : TicksTo bucket.creditedAt now) :
    Agrees quota (bucket.refill quota now) account := by
  have hexact := h.sound.refill_exact hquota hrate h.grid hticks.onGrid
  refine ⟨h.sound.refill hquota now, ?_, h.credited.trans hticks.le, ?_⟩
  · rw [hexact]
    have hcredit := hrate.mul hticks.onGrid
    exact (h.grid.add hcredit).min (onGrid_natCast _ (by decide))
  · have hsplit := Account.refill_refill hquota h.credited hticks.le
    rw [hexact, h.worth]
    show _ = (account.refill quota now).balance
    rw [← hsplit]
    rfl

theorem Agrees.one_le_iff (h : Agrees quota bucket account) :
    1 ≤ bucket.tokens
      ↔ 1 ≤ (account.refill quota bucket.creditedAt).balance := by
  rw [h.sound.one_le_iff, h.worth]

/-- A token less on both sides. -/
theorem Agrees.take (h : Agrees quota bucket account) (hone : 1 ≤ bucket.tokens) :
    Agrees quota { bucket with tokens := bucket.tokens - 1 }
      ((account.refill quota bucket.creditedAt).settle .allowed) := by
  obtain ⟨hsound, hless⟩ := h.sound.take hone
  have hmag := h.sound.one_le_iff.mp hone
  refine ⟨hsound, ?_, Nat.le_refl _, ?_⟩
  · show OnGrid _ (bucket.tokens - 1).magnitude
    rw [hless]
    have hunit : OnGrid (-20) (1 : ℚ) := by
      exact_mod_cast onGrid_natCast 1 (by decide)
    exact h.grid.sub hunit hmag
  · show (bucket.tokens - 1).magnitude = _
    have hle : ((account.refill quota bucket.creditedAt).settle .allowed).balance
        ≤ quota.burst.toNat :=
      (Account.settle_balance_le ..).trans (Account.refill_balance_le_burst ..)
    have hself := Account.refill_self quota hle
    rw [hless, h.worth]
    show _ = (Account.refill quota
      ((account.refill quota bucket.creditedAt).settle .allowed).creditedAt _).balance
    rw [hself]
    rfl

/-- There is neither bucket nor account yet, or they agree and the bucket is
credited up to `now`. -/
def Follows (quota : Quota) (now : ℕ) : Option Bucket → Option Account → Prop
  | none, none => True
  | some bucket, some account =>
      bucket.creditedAt = now ∧ Agrees quota bucket account
  | _, _ => False

variable {lone? : Option Bucket} {account? : Option Account} {start : ℕ}

theorem Follows.refill (hquota : quota.Usable) (hrate : OnGrid (-11) quota.perSecond)
    (h : Follows quota start lone? account?) (hticks : TicksTo start now) :
    Follows quota now (lone?.map (·.refill quota now)) account? := by
  cases lone? <;> cases account?
  case none.none => trivial
  case some.some bucket account =>
    obtain ⟨rfl, hagrees⟩ := h
    exact ⟨rfl, hagrees.refill hquota hrate hticks⟩
  all_goals exact h.elim

/-- What a request finds, both opened full if need be and credited. -/
theorem Follows.opened (hquota : quota.Usable) (hrate : OnGrid (-11) quota.perSecond)
    (h : Follows quota start lone? account?) (hticks : TicksTo start now) :
    Agrees quota ((lone?.getD (.full quota now)).refill quota now)
      (account?.getD (.full quota now)) := by
  cases lone? <;> cases account?
  case none.none => exact (agrees_full hquota now).refill hquota hrate (.refl now)
  case some.some bucket account =>
    obtain ⟨rfl, hagrees⟩ := h
    exact hagrees.refill hquota hrate hticks
  all_goals exact h.elim

/-- The lone bucket answers visits on ticks as the textbook bucket answers the
requests among them. -/
theorem replay_eq_serve (hquota : quota.Usable)
    (hrate : OnGrid (-11) quota.perSecond) (list : List Visit) :
    ∀ {lone? : Option Bucket} {account? : Option Account} {start : ℕ},
      (start :: list.map Visit.instant).IsChain TicksTo →
      Follows quota start lone? account? →
      (replay quota lone? list).filterMap Touch.answer?
        = Account.serve quota account? (list.filterMap Visit.askedAt?) := by
  induction list with
  | nil =>
      intro lone? account? start _ _
      rfl
  | cons visit rest ih =>
      intro lone? account? start hticks hfollows
      obtain ⟨hfirst, hrest⟩ := List.isChain_cons_cons.mp hticks
      cases visit with
      | sweeps now => exact ih hrest (hfollows.refill hquota hrate hfirst)
      | asks now =>
          have hopened := hfollows.opened hquota hrate hfirst
          have hone := hopened.one_le_iff
          have hanswers : ∀ answer (touches : List Touch),
              (Touch.asked now answer :: touches).filterMap Touch.answer?
                = answer :: touches.filterMap Touch.answer? := fun _ _ => rfl
          have hrequest : (Visit.asks now :: rest).filterMap Visit.askedAt?
              = now :: rest.filterMap Visit.askedAt? := rfl
          rw [replay_asks, hanswers, hrequest, Account.serve]
          rcases Bucket.draw_cases quota now (lone?.getD (.full quota now))
            with ⟨htoken, hdraw⟩ | ⟨hnone, hdraw⟩
          · have hbalance : 1 ≤ ((account?.getD (.full quota now)).refill quota
                now).balance := hone.mp htoken
            rw [if_pos hbalance, hdraw]
            exact congrArg (List.cons _) (ih hrest ⟨rfl, hopened.take htoken⟩)
          · have hbalance : ¬1 ≤ ((account?.getD (.full quota now)).refill quota
                now).balance := mt hone.mpr hnone
            rw [if_neg hbalance, hdraw]
            exact congrArg (List.cons _) (ih hrest ⟨rfl, hopened⟩)

-- ======================================================== the theorem

/-- If the rate is a multiple of 1/2048 tokens per second and all waits are
multiples of 1/512 seconds, each client is answered as by a textbook bucket
in exact numbers that knows of its own requests only. -/
theorem decisions_eq_textbook (hquota : quota.Usable)
    (hrate : ∃ k : ℕ, quota.rate.toRat? = some ((k : ℚ) / 2048)) (client : String)
    (calls : List Call)
    (hwaits : ∀ nanos, Call.wait nanos ∈ calls → 1953125 ∣ nanos) :
    decisions client ((Timed.start quota).history calls)
      = Account.serve quota none (requestInstants client 0 calls) := by
  have hgrid : OnGrid (-11) quota.perSecond := by
    obtain ⟨k, hk⟩ := hrate
    refine ⟨k, ?_⟩
    unfold Quota.perSecond
    rw [hk]
    norm_num [div_eq_mul_inv]
  have hlone : touches client ((Timed.start quota).history calls)
      = replay quota none (visits client 0 calls) :=
    touches_eq_replay hquota calls rfl (sound_start quota) fun _ h => nomatch h
  unfold decisions
  rw [hlone]
  exact replay_eq_serve hquota hgrid _ (visits_ticks client calls 0 hwaits) trivial

/-- Half a token per second, and a client that asks again a tick too early,
just after a sweep, and then in time to the nanosecond. -/
theorem decisions_eq_textbook_of_early_poll :
    let quota : Quota := ⟨.ofNat 1 / .ofNat 2, 1⟩
    let calls := [.request "a", .request "b", .wait 1998046875, .sweep,
      .request "a", .wait 1953125, .request "a"]
    quota.Usable ∧ quota.rate.toRat? = some ((1024 : ℕ) / 2048 : ℚ)
      ∧ (∀ nanos, Call.wait nanos ∈ calls → 1953125 ∣ nanos)
      ∧ decisions "a" ((Timed.start quota).history calls)
        = Account.serve quota none [0, 2000000000 - 1953125, 2000000000]
      ∧ Account.serve quota none [0, 2000000000 - 1953125, 2000000000]
        = [.allowed, .denied (.ofNanos 2000000000), .allowed] := by
  intro quota calls
  have hquota : quota.Usable := ⟨by decide +kernel, by decide +kernel, by decide⟩
  have hrate : quota.rate.toRat? = some ((1024 : ℕ) / 2048 : ℚ) := by
    decide +kernel
  have hwaits : ∀ nanos, Call.wait nanos ∈ calls → 1953125 ∣ nanos := by
    simp [calls]
  refine ⟨hquota, hrate, hwaits, ?_, by decide +kernel⟩
  exact decisions_eq_textbook hquota ⟨1024, hrate⟩ "a" calls hwaits

end Registry

end Turnstile
