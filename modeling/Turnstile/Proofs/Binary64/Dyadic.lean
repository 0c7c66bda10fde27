/-
Multiples of a power of two, on which binary64 is exact.

Sums, products and differences of multiples of a power of two are
multiples of one again (`OnGrid.add`, `OnGrid.mul`, `OnGrid.sub`), and a
multiple that is less than 2^53 times its unit is a binary64 magnitude, so
rounding leaves it alone (`OnGrid.value_nearest`).

Chain (binary64): Binary64/Rank.lean below; spans of time
(Duration/Seconds.lean) and token counts (Bucket/Exact.lean) on whole
fractions of a second above.
-/
import Mathlib
import Turnstile.Proofs.Binary64.Rank

namespace Turnstile.Binary64

/-- The number is a natural multiple of `2 ^ e`. -/
def OnGrid (e : ℤ) (q : ℚ) : Prop :=
  ∃ m : ℕ, q = m * 2 ^ e

variable {p q : ℚ} {d e : ℤ}

/-- A positive multiple is at least the unit. -/
theorem OnGrid.unit_le (hq : OnGrid e q) (hpos : 0 < q) : 2 ^ e ≤ q := by
  obtain ⟨m, rfl⟩ := hq
  have hm : m ≠ 0 := by
    rintro rfl
    simp at hpos
  have hone : (1 : ℚ) ≤ m := by exact_mod_cast Nat.one_le_iff_ne_zero.mpr hm
  exact le_mul_of_one_le_left (by positivity) hone

theorem onGrid_natCast (n : ℕ) (he : e ≤ 0) : OnGrid e n := by
  obtain ⟨k, rfl⟩ : ∃ k : ℕ, e = -k := ⟨e.natAbs, by omega⟩
  refine ⟨n * 2 ^ k, ?_⟩
  rw [zpow_neg, zpow_natCast]
  push_cast
  rw [mul_inv_cancel_right₀ (by positivity)]

theorem OnGrid.add (hp : OnGrid e p) (hq : OnGrid e q) : OnGrid e (p + q) := by
  obtain ⟨m, rfl⟩ := hp
  obtain ⟨n, rfl⟩ := hq
  exact ⟨m + n, by push_cast; ring⟩

theorem OnGrid.sub (hp : OnGrid e p) (hq : OnGrid e q) (hle : q ≤ p) :
    OnGrid e (p - q) := by
  obtain ⟨m, rfl⟩ := hp
  obtain ⟨n, rfl⟩ := hq
  have hnm : n ≤ m := by
    exact_mod_cast le_of_mul_le_mul_right hle (by positivity)
  exact ⟨m - n, by rw [Nat.cast_sub hnm, sub_mul]⟩

theorem OnGrid.mul (hp : OnGrid d p) (hq : OnGrid e q) :
    OnGrid (d + e) (p * q) := by
  obtain ⟨m, rfl⟩ := hp
  obtain ⟨n, rfl⟩ := hq
  refine ⟨m * n, ?_⟩
  rw [zpow_add₀ two_ne_zero]
  push_cast
  ring

theorem OnGrid.min (hp : OnGrid e p) (hq : OnGrid e q) :
    OnGrid e (min p q) := by
  rcases min_choice p q with h | h <;> rw [h]
  · exact hp
  · exact hq

/-- Rounding leaves a multiple alone whose significand is short enough. -/
theorem OnGrid.value_nearest (hq : OnGrid e q) (he : minExponent ≤ e)
    (hbound : q < 2 * binade * 2 ^ e) :
    Rank.value (Rank.nearest q) = q := by
  obtain ⟨m, rfl⟩ := hq
  have hm : (m : ℚ) < 2 * binade := lt_of_mul_lt_mul_right hbound (by positivity)
  exact Rank.value_nearest_of_grid (by exact_mod_cast hm) he

end Turnstile.Binary64
