/-
Every finite binary64 number is a decimal.

A magnitude is a multiple of 2^-1074 (`onGrid_value`), so it has 1074 decimal
places at most, and the decimal with these places is read as the number itself
(`exists_ofRat_toRat`).

Chain (binary64): Binary64/Dyadic.lean and Decimal/Nearest.lean below;
Toml/Numbers.lean above.
-/
import Mathlib
import Turnstile.Proofs.Binary64.Dyadic
import Turnstile.Proofs.Decimal.Nearest

namespace Turnstile

namespace Binary64

/-- A magnitude is a multiple of the smallest. -/
theorem onGrid_value (k : ℕ) : OnGrid minExponent (Rank.value k) := by
  refine ⟨Rank.significand k * 2 ^ (k / binade - 1), ?_⟩
  unfold Rank.value Rank.exponent
  rw [zpow_add₀ two_ne_zero, zpow_natCast]
  push_cast
  ring

end Binary64

namespace Decimal

open Binary64

/-- A multiple of a negative power of two has as many decimal places. -/
theorem exists_digits {places : ℕ} {q : ℚ} (hgrid : OnGrid (-places) q) :
    ∃ digits : ℕ, q = digits * 10 ^ (-places : ℤ) := by
  obtain ⟨m, rfl⟩ := hgrid
  refine ⟨m * 5 ^ places, ?_⟩
  have hten : (10 : ℚ) ^ (-places : ℤ) = 2 ^ (-places : ℤ) * 5 ^ (-places : ℤ) := by
    rw [← mul_zpow]
    norm_num
  have hfive : (5 : ℚ) ^ places * 5 ^ (-places : ℤ) = 1 := by
    rw [← zpow_natCast, ← zpow_add₀ (by norm_num), add_neg_cancel, zpow_zero]
  rw [hten]
  push_cast
  calc (m : ℚ) * 2 ^ (-places : ℤ)
      = m * 2 ^ (-places : ℤ) * (5 ^ places * 5 ^ (-places : ℤ)) := by rw [hfive, mul_one]
    _ = m * 5 ^ places * (2 ^ (-places : ℤ) * 5 ^ (-places : ℤ)) := by ring

/-- Every finite number is a decimal. -/
theorem exists_ofRat_toRat {x : Binary64} (hfinite : x.isFinite = true) :
    ∃ (negative : Bool) (digits places : ℕ),
      ofRat negative (⟨negative, digits, -places⟩ : Decimal).toRat = x := by
  cases x with
  | nan => cases hfinite
  | infinity => cases hfinite
  | finite negative rank =>
      obtain ⟨k, hk⟩ := rank
      have hgrid : OnGrid (-(1074 : ℕ)) (Rank.value k) := onGrid_value k
      obtain ⟨digits, hdigits⟩ := exists_digits hgrid
      refine ⟨negative, digits, 1074, ?_⟩
      generalize hd : (⟨negative, digits, -(1074 : ℕ)⟩ : Decimal) = d
      have hsign : d.negative = negative := hd ▸ rfl
      have hmag : d.magnitude = Rank.value k := by
        rw [hdigits, ← hd]
        rfl
      rcases Nat.eq_zero_or_pos k with hzero | hpos
      · have hvalue : d.toRat = 0 := by
          rw [toRat, hmag, hzero, Rank.value_zero]
          simp
        subst hzero
        rw [hvalue, ofRat, if_neg (lt_irrefl 0), if_pos rfl]
        rfl
      · have hround := ofRat_toRat (hmag ▸ Rank.value_pos hpos)
        rw [hmag, Rank.nearest_value, hsign] at hround
        rw [hround, ofRank, dif_pos hk]

end Decimal

end Turnstile
