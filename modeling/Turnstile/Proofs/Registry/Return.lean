/-
Who comes back exactly when a denial said.

A denied client leaves its refilled bucket, credited up to the instant of the
denial (`Timed.Sound.find?_of_denied`), and meets the same bucket when it comes
back, if it has not asked and nothing was swept in between. At the end of the wait
it is admitted exactly if what was left and the credit of the wait add up to a token
in binary64 (`Timed.Sound.request_allowed_iff_of_untouched`). A wait of at most 2^53
nanoseconds is a whole token by itself. A longer one may miss it by 2^-52, so it is
enough if that much was left. It is not enough for an empty bucket:
`denied_on_return`.

Chain (registry): Bucket/Interval.lean and Registry/Patience.lean below; a top
statement of the library.
-/
import Mathlib
import Turnstile.Proofs.Registry.Patience

namespace Turnstile.Registry

open Binary64

variable {registry : Registry} {state : Timed} {client : String} {now : ℕ}
  {after : List Call} {quota : Quota} {wait : Duration} {left : Bucket}

/-- A denial tells the interval of the rate. It leaves a bucket that is credited
up to its instant. -/
theorem Timed.Sound.find?_of_denied (hquota : quota.Usable) (hs : state.Sound)
    (hsame : state.registry.quota = quota)
    (hdenied : (state.registry.request state.now client).1 ≠ .allowed) :
    (state.registry.request state.now client).1 = .denied quota.retryAfter
      ∧ ∃ left : Bucket,
        (state.perform (.request client)).2.registry.find? client = some left
          ∧ left.Sound quota ∧ left.creditedAt = state.now := by
  subst hsame
  have hview := find?_request_of_denied hdenied client
  rw [if_pos rfl] at hview
  refine ⟨?_, _, hview, (hs.bucketOf client).refill hquota state.now, rfl⟩
  cases hanswer : (state.registry.request state.now client).1 with
  | allowed => exact absurd hanswer hdenied
  | denied wait => rw [wait_of_denied hanswer]

/-- After a stay away the answer depends on what was left and on the time since
it was credited. -/
theorem Timed.Sound.request_allowed_iff_of_untouched (hquota : quota.Usable)
    (hs : state.Sound) (hsame : state.registry.quota = quota)
    (hfind : state.registry.find? client = some left)
    (hasks : .request client ∉ after) (hsweeps : .sweep ∉ after) :
    ((state.run after).2.registry.request (state.run after).2.now client).1 = .allowed
      ↔ 1 ≤ left.tokens
        + secondsOf ((state.run after).2.now - left.creditedAt) * quota.rate := by
  subst hsame
  obtain ⟨-, hkept⟩ := hs.run hquota after
  have hview := find?_run_of_untouched hasks hsweeps state
  rw [hfind] at hview
  rw [request_allowed_iff, hkept, Registry.bucketOf, hview]
  exact (hs.sound client left hfind).one_le_refill_iff hquota

/-- The wait of a denial is worth a whole token if it is at most 2^53
nanoseconds, and a token but for 2^-52 if it is longer. A client that returns at
the end of it, having asked for nothing and with nothing swept since, is
admitted exactly if this and what was left make a token: always after the shorter
waits, and after the longer ones if 2^-52 was left. -/
theorem allowed_on_return (hquota : quota.Usable) (hsome : quota.retryAfter ≠ .longest) :
    let wait := quota.retryAfter.nanos
    let credit := secondsOf wait * quota.rate
    .ofRat false (1 - 1 / 2 ^ 52) ≤ credit
      ∧ (wait ≤ 2 ^ 53 → 1 ≤ credit)
      ∧ ∀ (before after : List Call) (client : String),
        let state := ((Timed.start quota).run before).2
        let denied := (state.perform (.request client)).2
        let later := (denied.run after).2
        (state.registry.request state.now client).1 ≠ .allowed →
        .request client ∉ after → .sweep ∉ after →
        later.now = state.now + wait →
        (state.registry.request state.now client).1 = .denied quota.retryAfter
          ∧ ∃ left, denied.registry.find? client = some left
            ∧ ((later.registry.request later.now client).1 = .allowed
              ↔ 1 ≤ left.tokens + credit)
            ∧ (wait ≤ 2 ^ 53 ∨ .ofRat false (1 / 2 ^ 52) ≤ left.tokens →
              (later.registry.request later.now client).1 = .allowed) := by
  intro wait credit
  have hspaced := Quota.spaced_of_ne_longest hsome
  have hcredit : credit.Nonneg := Bucket.nonneg_credit hquota wait
  have hnear : 1 - 2 ^ (-52 : ℤ) ≤ credit.magnitude := hspaced.credit_near_one
  have hwhole (hshort : wait ≤ 2 ^ 53) : (1 : Binary64).rank ≤ credit.rank :=
    hspaced.one_le_credit hshort
  refine ⟨?_, fun hshort => ?_, ?_⟩
  · rw [(nonneg_ofRat (by norm_num)).le_iff_magnitude hcredit]
    exact le_trans (by decide +kernel) hnear
  · exact (Bucket.one_spec.1.le_iff hcredit).mpr (hwhole hshort)
  intro before after client state denied later hdenied hasks hsweeps hnow
  obtain ⟨hs, hsame⟩ := (sound_start quota).run hquota before
  obtain ⟨htold, left, hfind, hleft, hinstant⟩ := hs.find?_of_denied hquota hsame hdenied
  have hkept : denied.Sound := hs.perform (hsame ▸ hquota) (.request client)
  have hallowed := hkept.request_allowed_iff_of_untouched hquota hsame hfind hasks hsweeps
  have hspan : later.now - left.creditedAt = wait := by
    rw [hnow, hinstant]
    exact Nat.add_sub_cancel_left ..
  rw [hspan] at hallowed
  refine ⟨htold, left, hfind, hallowed, fun henough => ?_⟩
  refine hallowed.mpr (hleft.one_le_add hquota ?_)
  rcases henough with hshort | hmore
  · have hone : (1 : ℚ) ≤ credit.magnitude :=
      Bucket.one_spec.2.symm.trans_le (Rank.value_le_value.mpr (hwhole hshort))
    exact hone.trans (le_add_of_nonneg_left (magnitude_nonneg _))
  · have hsmall : (2 : ℚ) ^ (-52 : ℤ) ≤ (ofRat false (1 / 2 ^ 52)).magnitude := by
      decide +kernel
    have hrest := ((nonneg_ofRat (by norm_num)).le_iff_magnitude hleft.nonneg).mp hmore
    calc (1 : ℚ) = 2 ^ (-52 : ℤ) + (1 - 2 ^ (-52 : ℤ)) := by ring
      _ ≤ left.tokens.magnitude + credit.magnitude :=
          add_le_add (hsmall.trans hrest) hnear

/-- At seven tokens per second a client is admitted when it returns, while another
one has asked. At three billionths of a token per second the wait is longer than
2^53 nanoseconds; a client that was denied a second after it had spent its token
is admitted at the end of it. -/
theorem allowed_on_return_of_leftover :
    let fast : Quota := ⟨7, 1⟩
    let slow : Quota := ⟨.ofRat false (3 / 1000000000), 1⟩
    let spent := (((Timed.start fast).run [.request "a"]).2.perform (.request "a")).2
    let returned := (spent.run [.request "b", .wait fast.retryAfter.nanos]).2
    let early := (((Timed.start slow).run [.request "a", .wait 1000000000]).2.perform
      (.request "a")).2
    let late := (early.run [.wait slow.retryAfter.nanos]).2
    fast.retryAfter.nanos = 142857143 ∧ 2 ^ 53 < slow.retryAfter.nanos
      ∧ (returned.registry.request returned.now "a").1 = .allowed
      ∧ (late.registry.request late.now "a").1 = .allowed := by
  intro fast slow spent returned early late
  have hfast : fast.Usable := ⟨by decide +kernel, by decide +kernel, by decide⟩
  have hslow : slow.Usable := ⟨by decide +kernel, by decide +kernel, by decide⟩
  refine ⟨by decide +kernel, by decide +kernel, ?_, ?_⟩
  · obtain ⟨-, -, hreturn⟩ := allowed_on_return hfast (by decide +kernel)
    obtain ⟨-, left, -, -, hallowed⟩ := hreturn [.request "a"]
      [.request "b", .wait fast.retryAfter.nanos] "a" (by decide +kernel) (by decide)
      (by decide) (by decide +kernel)
    exact hallowed (.inl (by decide +kernel))
  · obtain ⟨-, -, hreturn⟩ := allowed_on_return hslow (by decide +kernel)
    obtain ⟨-, left, hleft, -, hallowed⟩ := hreturn [.request "a", .wait 1000000000]
      [.wait slow.retryAfter.nanos] "a" (by decide +kernel) (by decide) (by decide)
      (by decide +kernel)
    have hsome : left.tokens = .ofRat false (3 / 1000000000) := by
      have hbucket : early.registry.find? "a"
          = some ⟨.ofRat false (3 / 1000000000), 1000000000⟩ := by decide +kernel
      rw [Option.some.inj (hleft.symm.trans hbucket)]
    exact hallowed (.inr (hsome ▸ by decide +kernel))

/-- At three billionths of a token per second the interval is ten years and a
half. It falls short of a token by 2^-53, and the client is denied again. -/
theorem denied_on_return :
    let quota : Quota := ⟨.ofRat false (3 / 1000000000), 1⟩
    let wait := quota.retryAfter.nanos
    let state := ((Timed.start quota).run [.request "a"]).2
    let denied := (state.perform (.request "a")).2
    let later := (denied.run [.wait wait]).2
    quota.Usable ∧ quota.retryAfter ≠ .longest
      ∧ wait = 333333333333333313
      ∧ secondsOf wait * quota.rate < 1
      ∧ (state.registry.request state.now "a").1 = .denied quota.retryAfter
      ∧ later.now = state.now + wait
      ∧ (later.registry.request later.now "a").1 = .denied quota.retryAfter := by
  intro quota wait state denied later
  have hquota : quota.Usable := ⟨by decide +kernel, by decide +kernel, by decide⟩
  refine ⟨hquota, ?_, ?_, ?_, ?_, ?_, ?_⟩
  all_goals decide +kernel

end Turnstile.Registry
