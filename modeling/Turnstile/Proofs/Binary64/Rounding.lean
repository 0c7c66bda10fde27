/-
Rounding to integers, and the binary order of a rational: what
`Binary64/Grid.lean` computes with, as laws.

- `roundHalfEven` is within a half (`roundHalfEven_error`), keeps
  integers (`roundHalfEven_intCast`) and keeps the order
  (`roundHalfEven_mono`).
- `binaryOrder q` is the exponent of the binade of `q`
  (`binaryOrder_spec`), the only one (`binaryOrder_eq`), and grows with
  `q` (`binaryOrder_mono`).

Chain (binary64): consumed by Binary64/Rank.lean, where both meet in the
rank nearest to a rational.
-/
import Mathlib
import Turnstile.Binary64.Grid

namespace Turnstile

-- ==================================================== nearest integers

theorem roundHalfEven_bounds (q : ℚ) :
    q.floor ≤ roundHalfEven q ∧ roundHalfEven q ≤ q.floor + 1 := by
  unfold roundHalfEven
  dsimp only
  split_ifs <;> omega

/-- The nearest integer is no further away than a half. On a tie both
neighbours are, so the parity of the lower one does not matter. -/
theorem roundHalfEven_error (q : ℚ) :
    |(roundHalfEven q : ℚ) - q| ≤ 1 / 2 := by
  have hbelow : (q.floor : ℚ) ≤ q := Rat.floor_le q
  have habove : q < (q.floor : ℚ) + 1 := Int.lt_floor_add_one q
  unfold roundHalfEven
  dsimp only
  split_ifs with hlow hhigh
  · rw [abs_sub_comm, abs_of_nonneg (sub_nonneg.mpr hbelow)]
    exact hlow.le
  · push_cast
    rw [abs_of_nonneg] <;> linarith
  · have htie : q - q.floor = 1 / 2 :=
      le_antisymm (not_lt.mp hhigh) (not_lt.mp hlow)
    rcases Int.emod_two_eq_zero_or_one q.floor with heven | hodd
    · rw [heven, add_zero, abs_sub_comm, htie, abs_of_pos one_half_pos]
    · rw [hodd, Int.cast_add, Int.cast_one, abs_of_nonneg] <;> linarith

theorem roundHalfEven_intCast (k : ℤ) : roundHalfEven k = k := by
  simp [roundHalfEven, Rat.floor_intCast]

/-- Rounding keeps the order. Within one unit it is the three-way choice
that does so; between units the neighbours alone. -/
theorem roundHalfEven_mono {p q : ℚ} (hpq : p ≤ q) :
    roundHalfEven p ≤ roundHalfEven q := by
  have hfloor : p.floor ≤ q.floor := Int.floor_le_floor hpq
  rcases hfloor.lt_or_eq with hlt | heq
  · have hp := (roundHalfEven_bounds p).2
    have hq := (roundHalfEven_bounds q).1
    omega
  · unfold roundHalfEven
    dsimp only
    rw [heq]
    split_ifs <;> first | omega | linarith

-- ==================================================== the binary order

theorem log2_spec {n : ℕ} (hn : n ≠ 0) :
    (2 : ℚ) ^ (n.log2 : ℤ) ≤ n ∧ (n : ℚ) < (2 : ℚ) ^ (n.log2 + 1 : ℤ) := by
  constructor
  · have hle := Nat.log2_self_le hn
    rw [zpow_natCast]
    exact_mod_cast hle
  · have hlt := Nat.lt_log2_self (n := n)
    have hcast : (n.log2 + 1 : ℤ) = ((n.log2 + 1 : ℕ) : ℤ) := rfl
    rw [hcast, zpow_natCast]
    exact_mod_cast hlt

theorem eq_natAbs_div_den {q : ℚ} (hq : 0 ≤ q) :
    q = (q.num.natAbs : ℚ) / q.den := by
  have hnum : ((q.num.natAbs : ℤ) : ℚ) = q.num := by
    rw [Int.natAbs_of_nonneg (Rat.num_nonneg.mpr hq)]
  rw [← Int.cast_natCast, hnum, Rat.num_div_den]

/-- The binary order is the exponent of the binade.

The two lengths give `2 ^ (guess - 1) ≤ q < 2 ^ (guess + 1)`, and the
comparison with `2 ^ guess` decides between the two halves. -/
theorem binaryOrder_spec {q : ℚ} (hq : 0 < q) :
    (2 : ℚ) ^ binaryOrder q ≤ q ∧ q < (2 : ℚ) ^ (binaryOrder q + 1) := by
  have hnum : q.num.natAbs ≠ 0 := by
    have := Rat.num_pos.mpr hq
    omega
  obtain ⟨hn, hn'⟩ := log2_spec hnum
  obtain ⟨hd, hd'⟩ := log2_spec q.den_nz
  have hden : (0 : ℚ) < q.den := by exact_mod_cast q.den_pos
  have hlow : (2 : ℚ) ^ ((q.num.natAbs.log2 : ℤ) - q.den.log2 - 1) ≤ q := by
    conv_rhs => rw [eq_natAbs_div_den hq.le]
    rw [le_div_iff₀ hden]
    calc (2 : ℚ) ^ ((q.num.natAbs.log2 : ℤ) - q.den.log2 - 1) * q.den
        ≤ (2 : ℚ) ^ ((q.num.natAbs.log2 : ℤ) - q.den.log2 - 1)
            * 2 ^ (q.den.log2 + 1 : ℤ) := by gcongr
      _ = (2 : ℚ) ^ (q.num.natAbs.log2 : ℤ) := by
          rw [← zpow_add₀ two_ne_zero]
          congr 1
          ring
      _ ≤ q.num.natAbs := hn
  have hhigh : q < (2 : ℚ) ^ ((q.num.natAbs.log2 : ℤ) - q.den.log2 + 1) := by
    conv_lhs => rw [eq_natAbs_div_den hq.le]
    rw [div_lt_iff₀ hden]
    calc (q.num.natAbs : ℚ) < (2 : ℚ) ^ (q.num.natAbs.log2 + 1 : ℤ) := hn'
      _ = (2 : ℚ) ^ ((q.num.natAbs.log2 : ℤ) - q.den.log2 + 1)
            * 2 ^ (q.den.log2 : ℤ) := by
          rw [← zpow_add₀ two_ne_zero]
          congr 1
          ring
      _ ≤ (2 : ℚ) ^ ((q.num.natAbs.log2 : ℤ) - q.den.log2 + 1) * q.den := by
          gcongr
  unfold binaryOrder
  dsimp only
  split_ifs with hguess
  · exact ⟨hguess, hhigh⟩
  · exact ⟨hlow, by rw [sub_add_cancel]; exact not_le.mp hguess⟩

theorem binaryOrder_eq {q : ℚ} {l : ℤ} (hlow : (2 : ℚ) ^ l ≤ q)
    (hhigh : q < (2 : ℚ) ^ (l + 1)) : binaryOrder q = l := by
  have hq : 0 < q := lt_of_lt_of_le (by positivity) hlow
  obtain ⟨hlow', hhigh'⟩ := binaryOrder_spec hq
  have h1 : l < binaryOrder q + 1 :=
    (zpow_lt_zpow_iff_right₀ one_lt_two).mp (hlow.trans_lt hhigh')
  have h2 : binaryOrder q < l + 1 :=
    (zpow_lt_zpow_iff_right₀ one_lt_two).mp (hlow'.trans_lt hhigh)
  omega

theorem binaryOrder_mono {p q : ℚ} (hp : 0 < p) (hpq : p ≤ q) :
    binaryOrder p ≤ binaryOrder q := by
  have hlow := (binaryOrder_spec hp).1
  have hhigh := (binaryOrder_spec (hp.trans_le hpq)).2
  have hlt : binaryOrder p < binaryOrder q + 1 :=
    (zpow_lt_zpow_iff_right₀ one_lt_two).mp ((hlow.trans hpq).trans_lt hhigh)
  omega

end Turnstile
