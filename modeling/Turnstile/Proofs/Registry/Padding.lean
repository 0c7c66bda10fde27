/-
Denied polls and sweeps, and what rounding makes of them.

A denial takes nothing and a sweep only reclaims memory, so in exact
numbers a client that is polled more often, or swept more often, is served
no differently. In binary64 every refill rounds, and one accrual that is
split into several may fall short of a token that the unsplit one reaches
(`padding_delays`): at ten tokens per second and a burst of one, a denied
poll after ten milliseconds costs the client its admission at a hundred.

What is left is that nothing but rounding tells the two runs apart. Up to
the first common request that is answered differently the exact accounts of
the two runs agree (`refill_follow_padding`), and a request can be answered
either way only if the balance is within the error of one token
(`Fits.near_one`). So the first difference, if there is one, is there
(`padding_diverges_near_one`).

Chain (registry): Registry/Accuracy.lean and Settings/Usable.lean below.
-/
import Mathlib
import Turnstile.Proofs.Registry.Accuracy
import Turnstile.Proofs.Settings.Usable

namespace Turnstile

-- ==================================================== accounts, by touch

namespace Account

open Registry

variable {quota : Quota} {account other : Account} {touch : Touch}

theorem touch_creditedAt (quota : Quota) (account : Account) (touch : Touch) :
    (account.touch quota touch).creditedAt = touch.instant := by
  cases touch with
  | asked now answer => exact settle_creditedAt ..
  | swept now => rfl

theorem touch_of_free (quota : Quota) (account : Account)
    (hfree : touch.isAllowed = false) :
    account.touch quota touch = account.refill quota touch.instant := by
  cases touch with
  | asked now answer =>
      cases answer with
      | allowed => cases hfree
      | denied wait => rfl
  | swept now => rfl

/-- Touches see no more of an account than a refill does. -/
theorem touch_congr
    (hsame : account.refill quota touch.instant
      = other.refill quota touch.instant) :
    account.touch quota touch = other.touch quota touch := by
  cases touch with
  | asked now answer => exact congrArg (settle · answer) hsame
  | swept now => exact hsame

end Account

-- ============================================================== padding

namespace Registry

variable {quota : Quota} {client : String} {padded common own : List Touch}

/-- The second list is what is left of the first when some touches that
admit nothing are dropped. -/
inductive Padding : List Touch → List Touch → Prop where
  | nil : Padding [] []
  | kept (touch : Touch) {padded common : List Touch}
      (hpad : Padding padded common) : Padding (touch :: padded) (touch :: common)
  | extra (touch : Touch) {padded common : List Touch}
      (hfree : touch.isAllowed = false) (hpad : Padding padded common) :
      Padding (touch :: padded) common

theorem Padding.length_le (hpad : Padding padded common) :
    common.length ≤ padded.length := by
  induction hpad with
  | nil => exact Nat.le_refl _
  | kept touch _ ih => exact Nat.succ_le_succ ih
  | extra touch _ _ ih => exact ih.trans (Nat.le_succ _)

/-- After `early` in the padded run and `before` in the other, a common
request at `now` is answered differently, and none was before. -/
def DivergesAt (padded own early before : List Touch) (now : ℕ) : Prop :=
  ∃ answer other late rest, padded = early ++ .asked now answer :: late
    ∧ own = before ++ .asked now other :: rest
    ∧ Padding early before ∧ answer ≠ other

theorem DivergesAt.cons {early before : List Touch} {now : ℕ} (touch : Touch)
    (hdiverges : DivergesAt padded own early before now) :
    DivergesAt (touch :: padded) (touch :: own) (touch :: early)
      (touch :: before) now := by
  obtain ⟨answer, other, late, rest, rfl, rfl, hpad, hne⟩ := hdiverges
  exact ⟨answer, other, late, rest, rfl, rfl, hpad.kept touch, hne⟩

theorem DivergesAt.extra {early before : List Touch} {now : ℕ} {touch : Touch}
    (hfree : touch.isAllowed = false)
    (hdiverges : DivergesAt padded own early before now) :
    DivergesAt (touch :: padded) own (touch :: early) before now := by
  obtain ⟨answer, other, late, rest, rfl, rfl, hpad, hne⟩ := hdiverges
  exact ⟨answer, other, late, rest, rfl, rfl, hpad.extra touch hfree, hne⟩

/-- If the common touches are those of the other run but for the answers,
the answers agree or there is a first one that does not. -/
theorem Padding.eq_or_diverges (hpad : Padding padded common) :
    ∀ {own : List Touch}, common.map Touch.visit = own.map Touch.visit →
      common = own
        ∨ ∃ early before now, DivergesAt padded own early before now := by
  induction hpad with
  | nil =>
      intro own hvisits
      left
      exact (List.map_eq_nil_iff.mp hvisits.symm).symm
  | kept touch hpad ih =>
      intro own hvisits
      cases own with
      | nil => cases hvisits
      | cons other own =>
          injection hvisits with hvisit hvisits
          by_cases hsame : touch = other
          · subst hsame
            rcases ih hvisits with rfl | ⟨early, before, now, hdiverges⟩
            · exact .inl rfl
            · exact .inr ⟨_, _, now, hdiverges.cons touch⟩
          · right
            refine ⟨[], [], touch.instant, ?_⟩
            cases touch with
            | swept now =>
                cases other with
                | swept now' =>
                    injection hvisit with hnow
                    exact absurd (congrArg Touch.swept hnow) hsame
                | asked now' other => cases hvisit
            | asked now answer =>
                cases other with
                | swept now' => cases hvisit
                | asked now' other =>
                    injection hvisit with hnow
                    subst hnow
                    exact ⟨answer, other, _, _, rfl, rfl, .nil,
                      fun h => hsame (congrArg (Touch.asked now) h)⟩
  | extra touch hfree hpad ih =>
      intro own hvisits
      rcases ih hvisits with rfl | ⟨early, before, now, hdiverges⟩
      · exact .inl rfl
      · exact .inr ⟨_, _, now, hdiverges.extra hfree⟩

-- ================================================ exact accounts agree

/-- In exact numbers the dropped touches make no difference later on. The
accounts need not be one to begin with, if every refill makes them so. -/
theorem refill_follow_padding (hquota : quota.Usable)
    (hpad : Padding padded common) {later : ℕ} :
    ∀ {account padding : Account},
      (padding.creditedAt :: (padded.map Touch.instant ++ [later])).IsChain
        (· ≤ ·) →
      (∀ now, padding.creditedAt ≤ now →
        account.refill quota now = padding.refill quota now) →
      (account.follow quota common).refill quota later
        = (padding.follow quota padded).refill quota later := by
  induction hpad with
  | nil =>
      intro account padding hchain hsame
      exact hsame later (List.isChain_cons_cons.mp hchain).1
  | kept touch hpad ih =>
      intro account padding hchain hsame
      obtain ⟨hle, hrest⟩ := List.isChain_cons_cons.mp hchain
      have htouch := Account.touch_congr (hsame touch.instant hle)
      show ((account.touch quota touch).follow quota _).refill quota later = _
      rw [htouch]
      refine ih ?_ fun now _ => rfl
      rw [Account.touch_creditedAt]
      exact hrest
  | extra touch hfree hpad ih =>
      intro account padding hchain hsame
      obtain ⟨hle, hrest⟩ := List.isChain_cons_cons.mp hchain
      have hrefill := Account.touch_of_free quota padding hfree
      show _ = ((padding.touch quota touch).follow quota _).refill quota later
      rw [hrefill]
      refine ih hrest fun now hnow => ?_
      rw [Account.refill_refill hquota hle hnow]
      exact hsame now (hle.trans hnow)

-- =================================================== answers and balances

/-- The answer is one that a balance can get if it is known up to `n`
slacks. -/
def Fits (quota : Quota) (n : ℕ) (balance : ℚ) : Admission → Prop
  | .allowed => 1 - n * quota.slack ≤ balance
  | .denied wait => wait = quota.retryAfter ∧ balance < 1 + n * quota.slack

variable {balance : ℚ} {answer other : Admission} {n m : ℕ}

theorem Fits.mono (hnm : n ≤ m) (hfits : Fits quota n balance answer) :
    Fits quota m balance answer := by
  have hslack := slack_mono quota hnm
  cases answer with
  | allowed =>
      have hlow : 1 - n * quota.slack ≤ balance := hfits
      show 1 - m * quota.slack ≤ balance
      linarith
  | denied wait =>
      obtain ⟨hwait, hhigh⟩ := hfits
      exact ⟨hwait, by linarith⟩

/-- Only a balance near one token can get two answers. -/
theorem Fits.near_one (hfits : Fits quota n balance answer)
    (hother : Fits quota n balance other) (hne : answer ≠ other) :
    |balance - 1| ≤ n * quota.slack := by
  rw [abs_le]
  cases answer with
  | allowed =>
      cases other with
      | allowed => exact absurd rfl hne
      | denied wait =>
          have hlow : 1 - n * quota.slack ≤ balance := hfits
          have hhigh := hother.2
          constructor <;> linarith
  | denied wait =>
      cases other with
      | allowed =>
          have hlow : 1 - n * quota.slack ≤ balance := hother
          have hhigh := hfits.2
          constructor <;> linarith
      | denied wait' =>
          have hsame : wait = wait' := hfits.1.trans hother.1.symm
          exact absurd (congrArg Admission.denied hsame) hne

/-- Every answer of a run fits the exact account at its instant, up to a
slack for each touch so far. -/
theorem answer_fits (hquota : quota.Usable) {calls : List Call}
    (hclock : ((Timed.start quota).run calls).2.now ≤ longestNanos)
    {early late : List Touch} {now : ℕ}
    (htouches : touches client ((Timed.start quota).history calls)
      = early ++ .asked now answer :: late) :
    Fits quota (early.length + 1)
      (((Account.full quota 0).follow quota early).refill quota now).balance
      answer := by
  obtain ⟨before, after, rfl, rfl, rfl, rfl⟩ := touches_split calls htouches
  have hstart := sound_start quota
  have hpast : ((Timed.start quota).run before).2.now ≤ longestNanos := by
    refine le_trans ?_ hclock
    rw [run_append]
    exact now_le_run ..
  obtain ⟨hs, hsame⟩ := hstart.run hquota before
  have htracks := tracks_run hquota before rfl hstart hpast
    (tracks_start quota client)
  have hcount := refillCount_le_length client before (Timed.start quota)
  rw [Nat.zero_add] at htracks
  refine Fits.mono (Nat.succ_le_succ hcount) ?_
  rcases answer_near hquota hsame hs hpast htracks with
    ⟨hanswer, hlow⟩ | ⟨hanswer, hhigh⟩
  · rw [hanswer]
    exact hlow
  · rw [hanswer]
    exact ⟨rfl, hhigh⟩

-- ======================================================== the theorem

/-- One run has the requests and the sweeps of the other and some more that
admit nothing. Unless all common requests are answered alike, the first one
that is not comes when the exact account, which is the same for both runs,
is within the error of one token; the error counts a slack for each touch
of the padded run so far. -/
theorem padding_diverges_near_one {limits : Settings.RateLimit}
    (henabled : limits.enabled = true) (hvalid : limits.fault? = none)
    (client : String) {calls more : List Call}
    (hclock : ((Timed.start limits.quota).run calls).2.now ≤ longestNanos)
    (hmore : ((Timed.start limits.quota).run more).2.now ≤ longestNanos)
    {common : List Touch}
    (hpad : Padding
      (touches client ((Timed.start limits.quota).history more)) common)
    (hvisits : common.map Touch.visit
      = (touches client ((Timed.start limits.quota).history calls)).map
          Touch.visit) :
    let own := touches client ((Timed.start limits.quota).history calls)
    let padded := touches client ((Timed.start limits.quota).history more)
    let account := Account.full limits.quota 0
    common = own ∨ ∃ early before now, DivergesAt padded own early before now
      ∧ (account.follow limits.quota early).refill limits.quota now
        = (account.follow limits.quota before).refill limits.quota now
      ∧ |((account.follow limits.quota before).refill limits.quota
          now).balance - 1| ≤ ↑(early.length + 1) * limits.quota.slack := by
  intro own padded account
  have hquota := ((Settings.RateLimit.fault?_eq_none_iff henabled).mp hvalid).1
  rcases hpad.eq_or_diverges hvisits with hsame | ⟨early, before, now, hdiverges⟩
  · exact .inl hsame
  · right
    refine ⟨early, before, now, hdiverges, ?_⟩
    obtain ⟨answer, other, late, rest, hpadded, hown, hearly, hne⟩ := hdiverges
    have hchain := touches_ordered client more (Timed.start limits.quota)
    rw [hpadded, List.map_append, List.map_cons, List.isChain_cons_split] at hchain
    have hexact : (account.follow limits.quota before).refill limits.quota now
        = (account.follow limits.quota early).refill limits.quota now :=
      refill_follow_padding hquota hearly hchain.1 fun _ _ => rfl
    have hfits := answer_fits hquota hmore hpadded
    have hother := (answer_fits hquota hclock hown).mono
      (Nat.succ_le_succ hearly.length_le)
    rw [hexact] at hother
    refine ⟨hexact.symm, ?_⟩
    rw [hexact]
    exact hfits.near_one hother hne

/-- Ten tokens per second and a burst of one: the client takes its token at
once, and would get the next after a tenth of a second. -/
def tenPerSecond : Settings.RateLimit :=
  ⟨true, 10, 1, .ofNanos 60000000000⟩

/-- A denied poll on the way delays the next admission: two credits of ten
and ninety milliseconds fall short of a token that one of a hundred
reaches. -/
theorem padding_delays :
    let start := Timed.start tenPerSecond.quota
    let own := touches "b" (start.history
      [.request "b", .wait 100000000, .request "b"])
    let padded := touches "b" (start.history
      [.request "b", .wait 10000000, .request "b", .wait 90000000, .request "b"])
    tenPerSecond.enabled = true ∧ tenPerSecond.fault? = none
      ∧ own = [.asked 0 .allowed, .asked 100000000 .allowed]
      ∧ ∃ wait, padded = [.asked 0 .allowed, .asked 10000000 (.denied wait),
          .asked 100000000 (.denied wait)]
        ∧ ∃ common, Padding padded common
          ∧ common.map Touch.visit = own.map Touch.visit ∧ common ≠ own := by
  intro start own padded
  have hown : own = [.asked 0 .allowed, .asked 100000000 .allowed] := by
    decide +kernel
  have hpadded : padded = [.asked 0 .allowed,
      .asked 10000000 (.denied (.ofNanos 100000000)),
      .asked 100000000 (.denied (.ofNanos 100000000))] := by
    decide +kernel
  refine ⟨rfl, by decide +kernel, hown, _, hpadded, ?_⟩
  rw [hown, hpadded]
  refine ⟨_, .kept _ (.extra _ rfl (.kept _ .nil)), rfl, ?_⟩
  decide

/-- The same two runs: the balance at their difference is one token. -/
theorem padding_diverges_near_one_of_poll :
    let quota := tenPerSecond.quota
    let start := Timed.start quota
    let calls := [.request "b", .wait 100000000, .request "b"]
    let more :=
      [.request "b", .wait 10000000, .request "b", .wait 90000000, .request "b"]
    let own := touches "b" (start.history calls)
    let padded := touches "b" (start.history more)
    let account := Account.full quota 0
    (start.run calls).2.now ≤ longestNanos
      ∧ (start.run more).2.now ≤ longestNanos
      ∧ ∃ common, Padding padded common
        ∧ common.map Touch.visit = own.map Touch.visit
        ∧ (common = own ∨ ∃ early before now,
          DivergesAt padded own early before now
            ∧ (account.follow quota early).refill quota now
              = (account.follow quota before).refill quota now
            ∧ |((account.follow quota before).refill quota now).balance - 1|
              ≤ ↑(early.length + 1) * quota.slack) := by
  intro quota start calls more own padded account
  have hclock : (start.run calls).2.now ≤ longestNanos := by decide +kernel
  have hmore : (start.run more).2.now ≤ longestNanos := by decide +kernel
  have hpadded : padded = [.asked 0 .allowed,
      .asked 10000000 (.denied (.ofNanos 100000000)),
      .asked 100000000 (.denied (.ofNanos 100000000))] := by
    decide +kernel
  have hpad : Padding padded [.asked 0 .allowed,
      .asked 100000000 (.denied (.ofNanos 100000000))] := by
    rw [hpadded]
    exact .kept _ (.extra _ rfl (.kept _ .nil))
  have hvisits : [Touch.asked 0 .allowed,
      .asked 100000000 (.denied (.ofNanos 100000000))].map Touch.visit
        = own.map Touch.visit := by
    decide +kernel
  refine ⟨hclock, hmore, _, hpad, hvisits, ?_⟩
  exact padding_diverges_near_one rfl (by decide +kernel) "b" hclock hmore hpad
    hvisits

end Registry

end Turnstile
