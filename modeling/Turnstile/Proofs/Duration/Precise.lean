/-
A total of whole nanoseconds is read exactly, if it is not too large for its
number of terms.

The sum of n terms is off by a share of n + 2 roundings (`sum_error`). As long
as the total, counted n + 2 times, is at most 2^51 nanoseconds, that share is
less than half a nanosecond (`allowance_lt_add_half`), and rounding the sum to
whole nanoseconds undoes it.

A total of nothing has no such bound on its terms, and needs none: then every
term is zero, and so is the sum (`sumOf_of_zero`).

Chain (duration): Duration/Total.lean below.
-/
import Mathlib
import Turnstile.Proofs.Duration.Total

namespace Turnstile.Duration

open Binary64

variable {t : Term} {ts : List Term} {n : ℕ}

-- ============================================================ no nanosecond

theorem amount_of_exact_zero (ht : t.amount.negative = false) (hzero : t.exact = 0) :
    t.amount.digits = 0 := by
  obtain ⟨hunit, -⟩ := unit_bounds t.unit
  rw [exact_eq ht, mul_eq_zero] at hzero
  have hmag : t.amount.magnitude = 0 :=
    hzero.resolve_right (lt_of_lt_of_le one_pos hunit).ne'
  unfold Decimal.magnitude at hmag
  have hdigits := (mul_eq_zero.mp hmag).resolve_right (by positivity)
  exact_mod_cast hdigits

/-- A term of nothing adds nothing. -/
theorem nanos_of_exact_zero (ht : t.amount.negative = false) (hzero : t.exact = 0) :
    t.nanos = Binary64.zero false := by
  unfold Term.nanos Decimal.toBinary64
  rw [if_pos (amount_of_exact_zero ht hzero), ht]
  cases t.unit <;> decide +kernel

theorem exact_eq_zero_of_total (hts : Unsigned ts) (hzero : exactTotal ts = 0) :
    ∀ t ∈ ts, t.exact = 0 := by
  have hnonneg : ∀ q ∈ ts.map Term.exact, 0 ≤ q := by
    intro q hq
    obtain ⟨t, ht, rfl⟩ := List.mem_map.mp hq
    exact exact_nonneg (hts t ht)
  intro t ht
  exact List.all_zero_of_le_zero_le_of_sum_eq_zero hnonneg hzero (List.mem_map_of_mem ht)

theorem sumOf_of_zero (hts : Unsigned ts) (hzero : exactTotal ts = 0) :
    sumOf ts = Binary64.zero false := by
  have hall := exact_eq_zero_of_total hts hzero
  clear hzero
  induction ts using List.reverseRecOn with
  | nil => rfl
  | append_singleton ts t ih =>
      have hterm := nanos_of_exact_zero (hts t (by simp)) (hall t (by simp))
      rw [sumOf_snoc, hterm, ih (fun other hother => hts other (by simp [hother]))
        (fun other hother => hall other (by simp [hother]))]
      decide +kernel

-- ======================================================== some nanoseconds

/-- The roundings of such a total come to less than half a nanosecond. -/
theorem allowance_lt_add_half (hpos : 0 < n) (htotal : exactTotal ts = n)
    (hsmall : n * (ts.length + 2) ≤ 2 ^ 51) : allowance ts < n + 1 / 2 := by
  have hlength : ts.length + 2 ≤ 2 ^ 51 := by
    exact (Nat.le_mul_of_pos_left _ hpos).trans hsmall
  have hgrowth := growth_le (m := ts.length + 2) (by omega)
  have hproduct : (n : ℚ) * (ts.length + 2) ≤ 2 ^ 51 := by exact_mod_cast hsmall
  have hlength' : (ts.length : ℚ) + 2 ≤ 2 ^ 51 := by exact_mod_cast hlength
  have hnoise : ts.length * noise ≤ 1 / 1024 := by
    have hsmall : noise ≤ 2 ^ (-61 : ℤ) := zpow_le_zpow_right₀ one_le_two (by decide)
    norm_num at hsmall
    nlinarith [noise_pos]
  have hbase : (0 : ℚ) ≤ n + ts.length * noise := by
    have hpos := mul_nonneg (Nat.cast_nonneg (α := ℚ) ts.length) noise_pos.le
    positivity
  unfold allowance
  rw [htotal]
  push_cast at hgrowth
  calc ((n : ℚ) + ts.length * noise) * (1 + 2 ^ (-53 : ℤ)) ^ (ts.length + 2)
      ≤ (n + ts.length * noise) * (1 + 3 * (ts.length + 2) * 2 ^ (-54 : ℤ)) :=
        mul_le_mul_of_nonneg_left hgrowth hbase
    _ ≤ (n + 1 / 1024) * (1 + 3 * (ts.length + 2) * 2 ^ (-54 : ℤ)) := by gcongr
    _ < n + 1 / 2 := by
        norm_num
        linarith

/-- The sum of such terms is rounded to their exact total. -/
theorem total?_of_whole (hts : Unsigned ts) (htotal : exactTotal ts = n)
    (hsmall : n * (ts.length + 2) ≤ 2 ^ 51) : total? ts = some (ofNanos n) := by
  rcases Nat.eq_zero_or_pos n with rfl | hpos
  · have hzero := sumOf_of_zero hts (htotal.trans Nat.cast_zero)
    refine total?_of_near ?_ ?_ (by decide)
    · rw [hzero]
      exact nonneg_zero
    · have hmag : (Binary64.zero false).magnitude = 0 := Rank.value_zero
      rw [hzero, hmag]
      norm_num
  · have hallow := allowance_lt_add_half hpos htotal hsmall
    have hshort : n ≤ 2 ^ 51 := (Nat.le_mul_of_pos_right n (by omega)).trans hsmall
    have hcast : (n : ℚ) ≤ 2 ^ 51 := by exact_mod_cast hshort
    have hbound : allowance ts ≤ 2 ^ (1023 : ℤ) := by
      have hroom : (2 : ℚ) ^ 51 + 1 / 2 ≤ 2 ^ (52 : ℤ) := by norm_num
      have hfits : (2 : ℚ) ^ (52 : ℤ) ≤ 2 ^ (1023 : ℤ) :=
        zpow_le_zpow_right₀ one_le_two (by decide)
      exact (by linarith : allowance ts ≤ 2 ^ (52 : ℤ)).trans hfits
    obtain ⟨hsum, herror⟩ := sum_error hts hbound
    rw [htotal] at herror
    refine total?_of_near hsum (herror.trans_lt (by linarith)) ?_
    exact hshort.trans_lt (by decide)

-- ============================================================= the grammar

/-- A text in the grammar whose terms come to a whole number of nanoseconds is
read as that number, if the number, counted two times more than there are
terms, is at most 2^51. -/
theorem durationOf_of_whole {text : String} (hspells : Spells (Text.trim text.toList) ts)
    (htotal : exactTotal ts = n) (hsmall : n * (ts.length + 2) ≤ 2 ^ 51) :
    ∃ d, Settings.durationOf text = .ok d ∧ d.nanos = n := by
  refine ⟨ofNanos n, ?_, ?_⟩
  · rw [Settings.durationOf, parse?_of_spells hspells,
      total?_of_whole hspells.unsigned htotal hsmall]
  · have hshort : n ≤ 2 ^ 51 := (Nat.le_mul_of_pos_right n (by omega)).trans hsmall
    exact Nat.min_eq_left (hshort.trans (by decide))

/-- None of these amounts is a number of binary64, and the last two terms are
whole nanoseconds only together. -/
theorem durationOf_of_whole_of_fractions :
    ∃ d, Settings.durationOf " 1.1h0.1\u00B5s.0000000003s.7ns" = .ok d
      ∧ d.nanos = 3960000000101 := by
  have hread : terms? (Text.trim " 1.1h0.1\u00B5s.0000000003s.7ns".toList)
      = some [⟨⟨false, 11, -1⟩, .hour⟩, ⟨⟨false, 1, -1⟩, .microsecond⟩,
        ⟨⟨false, 3, -10⟩, .second⟩, ⟨⟨false, 7, -1⟩, .nanosecond⟩] := by
    decide +kernel
  refine durationOf_of_whole (.terms (by simp) (terms?_eq_some_iff.mp hread)) ?_ (by simp)
  norm_num [exactTotal, Term.exact, Decimal.toRat, Decimal.magnitude, TimeUnit.nanos]

end Turnstile.Duration
