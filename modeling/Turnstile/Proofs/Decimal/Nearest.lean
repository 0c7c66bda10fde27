/-
Decimals are rounded once and correctly.

`Decimal.toBinary64` looks at the size of a decimal before it rounds, so that
no huge power of ten is computed. Neither look changes the result: from
10^311 on the nearest rank is past the grid, and below 10^-331 it is zero
(`toBinary64_eq`).

Chain (binary64): Binary64/Nonneg.lean below; Duration/Total.lean above.
-/
import Mathlib
import Turnstile.Decimal.Basic
import Turnstile.Proofs.Binary64.Nonneg

namespace Turnstile

namespace Binary64.Rank

variable {q : ℚ}

/-- Magnitudes past 2^1024 are past the grid. -/
theorem rankBound_le_nearest (hq : 2 ^ (1024 : ℤ) ≤ q) : rankBound ≤ nearest q :=
  le_nearest (value_rankBound ▸ hq)

/-- Magnitudes below half the smallest one round to zero. -/
theorem nearest_of_tiny (hq : q < 2 ^ (-1075 : ℤ)) : nearest q = 0 := by
  rcases le_or_gt q 0 with hneg | hpos
  · exact nearest_of_nonpos hneg
  by_contra hne
  have hone : (2 : ℚ) ^ (-1074 : ℤ) ≤ value (nearest q) := by
    have hvalue : value 1 = 2 ^ (-1074 : ℤ) := by
      simp [value, significand, exponent, binade, minExponent]
    rw [← hvalue]
    exact value_le_value.mpr (Nat.one_le_iff_ne_zero.mpr hne)
  have hshare : q * 2 ^ (-53 : ℤ) ≤ 2 ^ (-1075 : ℤ) := by
    refine le_trans ?_ hq.le
    exact mul_le_of_le_one_right hpos.le (by norm_num)
  have herror := (nearest_error_le hpos.le).trans (max_le hshare le_rfl)
  have hhalf : (2 : ℚ) ^ (-1074 : ℤ) = 2 ^ (-1075 : ℤ) + 2 ^ (-1075 : ℤ) := by
    rw [← two_mul, ← zpow_one_add₀ two_ne_zero]
    rfl
  have habove := (abs_le.mp herror).2
  linarith

/-- A rounding costs a share of 2^-53, and half the smallest magnitude. -/
theorem nearest_error_add (hq : 0 ≤ q) :
    |value (nearest q) - q| ≤ q * 2 ^ (-53 : ℤ) + 2 ^ (-1075 : ℤ) :=
  (nearest_error_le hq).trans
    (max_le_add_of_nonneg (by positivity) (by positivity))

end Binary64.Rank

namespace Decimal

open Binary64

variable {d : Decimal}

theorem magnitude_nonneg (d : Decimal) : 0 ≤ d.magnitude := by
  unfold magnitude
  positivity

/-- The sign of the exact value is the sign of the decimal. -/
theorem ofRat_toRat (hpos : 0 < d.magnitude) :
    ofRat d.negative d.toRat = ofRank d.negative (Rank.nearest d.magnitude) := by
  unfold ofRat toRat
  cases d.negative with
  | false =>
      simp only [Bool.false_eq_true, if_false]
      rw [if_neg (not_lt.mpr hpos.le), if_neg hpos.ne']
  | true =>
      simp only [if_true]
      rw [if_pos (neg_lt_zero.mpr hpos), neg_neg]

theorem le_magnitude_of_large (hdigits : d.digits ≠ 0) (hlarge : 310 < d.exponent) :
    2 ^ (1024 : ℤ) ≤ d.magnitude := by
  have hone : (1 : ℚ) ≤ d.digits := by
    exact_mod_cast Nat.one_le_iff_ne_zero.mpr hdigits
  have hpowers : (2 : ℚ) ^ (205 : ℤ) ≤ 10 ^ (62 : ℤ) := by norm_num
  calc (2 : ℚ) ^ (1024 : ℤ) ≤ 2 ^ (205 * 5 : ℤ) :=
        zpow_le_zpow_right₀ one_le_two (by decide)
    _ = (2 ^ (205 : ℤ)) ^ (5 : ℤ) := zpow_mul _ _ _
    _ ≤ (10 ^ (62 : ℤ)) ^ (5 : ℤ) := zpow_le_zpow_left₀ (by decide) (by positivity) hpowers
    _ = 10 ^ (62 * 5 : ℤ) := (zpow_mul _ _ _).symm
    _ ≤ 10 ^ d.exponent := zpow_le_zpow_right₀ (by norm_num) hlarge.le
    _ ≤ d.magnitude := le_mul_of_one_le_left (by positivity) hone

theorem magnitude_lt_of_small (hsmall : d.exponent + d.digits.log2 + 1 < -330) :
    d.magnitude < 2 ^ (-1075 : ℤ) := by
  have hdigits : (d.digits : ℚ) < 10 ^ (d.digits.log2 + 1 : ℤ) := by
    have htwo : d.digits < 2 ^ (d.digits.log2 + 1) := Nat.lt_log2_self
    have hten : d.digits < 10 ^ (d.digits.log2 + 1) :=
      htwo.trans_le (Nat.pow_le_pow_left (by decide) _)
    have hcast : (d.digits.log2 + 1 : ℤ) = ((d.digits.log2 + 1 : ℕ) : ℤ) := rfl
    rw [hcast, zpow_natCast]
    exact_mod_cast hten
  have hpowers : (10 : ℚ) ^ (-66 : ℤ) ≤ 2 ^ (-215 : ℤ) := by norm_num
  calc d.magnitude < 10 ^ (d.digits.log2 + 1 : ℤ) * 10 ^ d.exponent :=
        mul_lt_mul_of_pos_right hdigits (by positivity)
    _ = 10 ^ (d.exponent + d.digits.log2 + 1) := by
        rw [← zpow_add₀ (by norm_num)]
        congr 1
        ring
    _ ≤ 10 ^ (-66 * 5 : ℤ) := zpow_le_zpow_right₀ (by norm_num) (by omega)
    _ = (10 ^ (-66 : ℤ)) ^ (5 : ℤ) := zpow_mul _ _ _
    _ ≤ (2 ^ (-215 : ℤ)) ^ (5 : ℤ) := zpow_le_zpow_left₀ (by decide) (by positivity) hpowers
    _ = 2 ^ (-1075 : ℤ) := (zpow_mul _ _ _).symm

/-- The binary64 number of a decimal is the one nearest to its exact value, and
a zero keeps its sign. -/
theorem toBinary64_eq (d : Decimal) : d.toBinary64 = ofRat d.negative d.toRat := by
  unfold toBinary64
  split_ifs with hzero hlarge hsmall
  · have hvalue : d.toRat = 0 := by simp [toRat, magnitude, hzero]
    rw [hvalue]
    rfl
  · have hmag := le_magnitude_of_large hzero hlarge
    have hpast := Rank.rankBound_le_nearest hmag
    rw [ofRat_toRat (lt_of_lt_of_le (by positivity) hmag), ofRank,
      dif_neg (not_lt.mpr hpast)]
  · have hpos : 0 < d.magnitude := by
      have hdigits : (0 : ℚ) < d.digits := by
        exact_mod_cast Nat.pos_of_ne_zero hzero
      unfold magnitude
      positivity
    rw [ofRat_toRat hpos, Rank.nearest_of_tiny (magnitude_lt_of_small hsmall)]
    rfl
  · rfl

/-- A decimal without sign is rounded to a number that is not negative, and is
finite unless it is too large. -/
theorem toBinary64_error (hsign : d.negative = false)
    (hle : d.magnitude ≤ 2 ^ (1023 : ℤ)) :
    d.toBinary64.Nonneg ∧ d.toBinary64.isFinite = true
      ∧ |d.toBinary64.magnitude - d.magnitude|
        ≤ d.magnitude * 2 ^ (-53 : ℤ) + 2 ^ (-1075 : ℤ) := by
  have hmag := d.magnitude_nonneg
  have hread : d.toBinary64 = ofRat false d.magnitude := by
    rw [toBinary64_eq, toRat, hsign]
    rfl
  rw [hread]
  refine ⟨nonneg_ofRat hmag, isFinite_of_rank (nonneg_ofRat hmag) ?_, ?_⟩
  · rw [rank_ofRat hmag]
    exact (Nat.min_le_left ..).trans_lt (Rank.nearest_lt_rankBound hle)
  · rw [magnitude_ofRat hmag hle]
    exact Rank.nearest_error_add hmag

end Decimal

end Turnstile
