/-
The grid of magnitudes, as laws.

`Rank.value` and `Rank.nearest` are a pair: `nearest` undoes `value`
(`nearest_value`) and keeps the order (`nearest_mono`). All that is said
of order follows from these two: `value` grows strictly with the rank,
and a rank bounds the rank nearest to `q` as soon as its value bounds `q`
(`le_nearest`, `nearest_le`).

What rounding costs is half a spacing (`nearest_error`), that is a share
of 2^-53 and, below the normal numbers, half the smallest magnitude
(`nearest_error_le`), or, up to a power of two, a share of that power
(`nearest_error_of_le`). It costs nothing on multiples of a spacing with a
short significand (`value_nearest_of_grid`), and it takes away all that is less
than half a spacing (`nearest_add_of_lt_half`).

Chain (binary64): Binary64/Rounding.lean below, Binary64/Nonneg.lean
above.
-/
import Mathlib
import Turnstile.Proofs.Binary64.Rounding

namespace Turnstile.Binary64.Rank

variable {p q : ℚ} {j k m : ℕ}

-- ================================================= ranks and their parts

theorem binade_eq : (binade : ℚ) = 2 ^ (52 : ℤ) := by
  norm_num [binade]

/-- The value of a rank given as full binades and a significand. The
significand may be the first of the next binade, so that rounding up to it
needs no case of its own. -/
theorem value_of_parts (hm : m ≤ 2 * binade) (hj : j = 0 ∨ binade ≤ m) :
    value (j * binade + m) = (m : ℚ) * 2 ^ (minExponent + j) := by
  unfold value significand exponent
  rcases Nat.lt_or_ge m binade with hsmall | hlarge
  · have hj0 : j = 0 := hj.resolve_right (by omega)
    have hdiv : (0 * binade + m) / binade - 1 = 0 := by
      unfold binade at *
      omega
    subst hj0
    rw [if_pos (by omega), hdiv, Nat.zero_mul, Nat.zero_add]
  rcases hm.lt_or_eq with hlt | heq
  · have hdiv : (j * binade + m) / binade - 1 = j := by
      unfold binade at *
      omega
    have hmod : binade + (j * binade + m) % binade = m := by
      unfold binade at *
      omega
    rw [if_neg (by omega), hdiv, hmod]
  · have hdiv : (j * binade + 2 * binade) / binade - 1 = j + 1 := by
      unfold binade
      omega
    have hmod : binade + (j * binade + 2 * binade) % binade = binade := by
      unfold binade
      omega
    subst heq
    rw [if_neg (by omega), hdiv, hmod]
    push_cast
    rw [← add_assoc, zpow_add_one₀ two_ne_zero]
    ring

/-- A rank is made of full binades and its significand, which is below the
next binade, and in it or past it unless there is no full one. -/
theorem parts (k : ℕ) :
    (k / binade - 1) * binade + significand k = k
      ∧ significand k < 2 * binade
      ∧ (k / binade - 1 = 0 ∨ binade ≤ significand k) := by
  unfold significand binade
  split_ifs <;> omega

theorem minExponent_le_exponent (k : ℕ) : minExponent ≤ exponent k := by
  unfold exponent
  omega

theorem value_zero : value 0 = 0 := by
  simp [value, significand, binade]

theorem significand_pos (hk : 0 < k) : 0 < significand k := by
  unfold significand
  split_ifs
  · exact hk
  · exact Nat.add_pos_left (by decide) _

theorem value_pos (hk : 0 < k) : 0 < value k := by
  have hsig : (0 : ℚ) < significand k := by exact_mod_cast significand_pos hk
  unfold value
  positivity

theorem value_nonneg (k : ℕ) : 0 ≤ value k := by
  unfold value
  positivity

-- ====================================================== the nearest rank

theorem minExponent_le_spacing (q : ℚ) : minExponent ≤ spacing q :=
  le_max_left ..

/-- Counted in its spacing, a magnitude stays below two binades, and is
not below one unless the spacing is the finest. -/
theorem scaled_bounds (hq : 0 < q) :
    0 < q / 2 ^ spacing q ∧ q / 2 ^ spacing q < 2 * binade
      ∧ (spacing q = minExponent ∨ (binade : ℚ) ≤ q / 2 ^ spacing q) := by
  obtain ⟨hlow, hhigh⟩ := binaryOrder_spec hq
  have hle : binaryOrder q - 52 ≤ spacing q := le_max_right ..
  refine ⟨by positivity, ?_, ?_⟩
  · rw [div_lt_iff₀ (by positivity), binade_eq]
    calc q < 2 ^ (binaryOrder q + 1) := hhigh
      _ ≤ 2 ^ (1 + 52 + spacing q) :=
          zpow_le_zpow_right₀ one_le_two (by omega)
      _ = 2 * 2 ^ (52 : ℤ) * 2 ^ spacing q := by
          rw [zpow_add₀ two_ne_zero, zpow_add₀ two_ne_zero, zpow_one]
  · rcases max_choice minExponent (binaryOrder q - 52) with hmin | hord
    · exact Or.inl hmin
    · have hsp : spacing q = binaryOrder q - 52 := hord
      right
      rw [le_div_iff₀ (by positivity), binade_eq, hsp,
        ← zpow_add₀ two_ne_zero, add_sub_cancel]
      exact hlow

/-- The rounded significand keeps these bounds; it may reach the upper
one. -/
theorem rounded_bounds (hq : 0 < q) :
    0 ≤ roundHalfEven (q / 2 ^ spacing q)
      ∧ roundHalfEven (q / 2 ^ spacing q) ≤ 2 * binade
      ∧ (spacing q = minExponent
          ∨ (binade : ℤ) ≤ roundHalfEven (q / 2 ^ spacing q)) := by
  obtain ⟨hpos, hlt, hcase⟩ := scaled_bounds hq
  have hzero := roundHalfEven_intCast 0
  have hone := roundHalfEven_intCast binade
  have htwo := roundHalfEven_intCast (2 * binade)
  push_cast at hzero hone htwo
  refine ⟨?_, ?_, hcase.imp_right fun hle => ?_⟩
  · exact hzero ▸ roundHalfEven_mono hpos.le
  · exact htwo ▸ roundHalfEven_mono hlt.le
  · exact hone ▸ roundHalfEven_mono hle

theorem nearest_of_pos (hq : 0 < q) :
    nearest q = (spacing q - minExponent).toNat * binade
      + (roundHalfEven (q / 2 ^ spacing q)).toNat := by
  rw [nearest, if_neg (not_le.mpr hq)]

theorem nearest_of_nonpos (hq : q ≤ 0) : nearest q = 0 := by
  rw [nearest, if_pos hq]

theorem value_nearest (hq : 0 < q) :
    value (nearest q)
      = roundHalfEven (q / 2 ^ spacing q) * 2 ^ spacing q := by
  obtain ⟨hnonneg, hle, hcase⟩ := rounded_bounds hq
  have hmin := minExponent_le_spacing q
  rw [nearest_of_pos hq, value_of_parts (by omega) (by omega),
    Int.toNat_of_nonneg (by omega), add_sub_cancel]
  congr 1
  exact_mod_cast Int.toNat_of_nonneg hnonneg

/-- A larger magnitude has no smaller nearest rank. If the spacing grows
on the way, the ranks are at least a binade apart from its end. -/
theorem nearest_mono (hpq : p ≤ q) : nearest p ≤ nearest q := by
  rcases le_or_gt p 0 with hp | hp
  · rw [nearest_of_nonpos hp]
    exact Nat.zero_le _
  have hq : 0 < q := hp.trans_le hpq
  have hspace : spacing p ≤ spacing q :=
    max_le_max le_rfl (Int.sub_le_sub_right (binaryOrder_mono hp hpq) _)
  have hmin := minExponent_le_spacing p
  obtain ⟨hp0, hp1, -⟩ := rounded_bounds hp
  obtain ⟨hq0, -, hq2⟩ := rounded_bounds hq
  rw [nearest_of_pos hp, nearest_of_pos hq]
  rcases hspace.lt_or_eq with hlt | heq
  · unfold binade at *
    omega
  · have hscaled : p / 2 ^ spacing q ≤ q / 2 ^ spacing q := by gcongr
    have hround := roundHalfEven_mono hscaled
    rw [heq]
    omega

theorem spacing_value (hk : 0 < k) : spacing (value k) = exponent k := by
  obtain ⟨hparts, hlt, hcase⟩ := parts k
  have hsig : significand k ≠ 0 := (significand_pos hk).ne'
  obtain ⟨hlow, hhigh⟩ := log2_spec hsig
  have hord : binaryOrder (value k) = (significand k).log2 + exponent k := by
    apply binaryOrder_eq
    · rw [zpow_add₀ two_ne_zero]
      unfold value
      gcongr
    · rw [add_right_comm, zpow_add₀ two_ne_zero]
      unfold value
      gcongr
  have hupper : (significand k).log2 < 53 :=
    (Nat.log2_lt hsig).mpr (by unfold binade at hlt; omega)
  have hmin := minExponent_le_exponent k
  unfold spacing
  rw [hord]
  rcases hcase with hzero | hge
  · have hexp : exponent k = minExponent := by
      unfold exponent
      rw [hzero]
      rfl
    omega
  · have hlower : 52 ≤ (significand k).log2 :=
      (Nat.le_log2 hsig).mpr (by unfold binade at hge; omega)
    omega

theorem nearest_value (k : ℕ) : nearest (value k) = k := by
  rcases Nat.eq_zero_or_pos k with hzero | hk
  · rw [hzero, value_zero, nearest_of_nonpos le_rfl]
  · have hdiv : value k / 2 ^ exponent k = ((significand k : ℤ) : ℚ) := by
      unfold value
      rw [mul_div_cancel_right₀ _ (by positivity)]
      rfl
    have hexp : (exponent k - minExponent).toNat = k / binade - 1 := by
      unfold exponent
      omega
    rw [nearest_of_pos (value_pos hk), spacing_value hk, hdiv,
      roundHalfEven_intCast, hexp, Int.toNat_natCast]
    exact (parts k).1

-- ============================================================= the order

theorem le_nearest (hk : value k ≤ q) : k ≤ nearest q :=
  nearest_value k ▸ nearest_mono hk

theorem nearest_le (hk : q ≤ value k) : nearest q ≤ k :=
  nearest_value k ▸ nearest_mono hk

theorem value_strictMono : StrictMono value := by
  intro j k hjk
  by_contra hle
  have hback := nearest_le (not_lt.mp hle)
  rw [nearest_value] at hback
  omega

theorem value_le_value : value j ≤ value k ↔ j ≤ k :=
  value_strictMono.le_iff_le

theorem value_min (j k : ℕ) : value (min j k) = min (value j) (value k) :=
  value_strictMono.monotone.map_min

theorem value_rankBound : value rankBound = 2 ^ (1024 : ℤ) := by
  have hparts : rankBound = 2046 * binade + binade := rfl
  rw [hparts, value_of_parts (by omega) (by omega), binade_eq,
    ← zpow_add₀ two_ne_zero]
  rfl

/-- What is not beyond 2^1023 does not overflow. -/
theorem nearest_lt_rankBound (hq : q ≤ 2 ^ (1023 : ℤ)) :
    nearest q < rankBound := by
  have hvalue : value (2045 * binade + binade) = 2 ^ (1023 : ℤ) := by
    rw [value_of_parts (by omega) (by omega), binade_eq,
      ← zpow_add₀ two_ne_zero]
    rfl
  exact (nearest_le (hvalue ▸ hq)).trans_lt (by decide)

-- =========================================================== the rounding

theorem nearest_error (hq : 0 < q) :
    |value (nearest q) - q| ≤ 2 ^ spacing q / 2 := by
  have hpow : (0 : ℚ) < 2 ^ spacing q := by positivity
  have hround := roundHalfEven_error (q / 2 ^ spacing q)
  have hsplit : value (nearest q) - q
      = (roundHalfEven (q / 2 ^ spacing q) - q / 2 ^ spacing q)
          * 2 ^ spacing q := by
    rw [value_nearest hq, sub_mul, div_mul_cancel₀ _ hpow.ne']
  rw [hsplit, abs_mul, abs_of_pos hpow]
  linarith [mul_le_mul_of_nonneg_right hround hpow.le]

/-- Half a spacing is a share of 2^-53, or half the smallest magnitude. -/
theorem half_spacing_le (hq : 0 < q) :
    (2 : ℚ) ^ spacing q / 2 ≤ max (q * 2 ^ (-53 : ℤ)) (2 ^ (-1075 : ℤ)) := by
  have hhalf : ∀ e : ℤ, (2 : ℚ) ^ e / 2 = 2 ^ (e - 1) := fun e => by
    rw [zpow_sub_one₀ two_ne_zero, div_eq_mul_inv]
  rw [hhalf]
  rcases max_choice minExponent (binaryOrder q - 52) with hmin | hord
  · have hsp : spacing q = minExponent := hmin
    rw [hsp]
    exact le_max_right ..
  · have hsp : spacing q = binaryOrder q - 52 := hord
    have hexp : spacing q - 1 = binaryOrder q + -53 := by omega
    rw [hexp, zpow_add₀ two_ne_zero]
    refine le_trans ?_ (le_max_left ..)
    have hlow := (binaryOrder_spec hq).1
    gcongr

/-- What rounding costs at most, for small and for large magnitudes. -/
theorem nearest_error_le (hq : 0 ≤ q) :
    |value (nearest q) - q| ≤ max (q * 2 ^ (-53 : ℤ)) (2 ^ (-1075 : ℤ)) := by
  rcases hq.lt_or_eq with hpos | hzero
  · exact (nearest_error hpos).trans (half_spacing_le hpos)
  · rw [← hzero, nearest_of_nonpos le_rfl, value_zero, sub_zero, abs_zero]
    positivity

/-- Among the normal numbers, and at zero, rounding costs a share of
2^-53. -/
theorem nearest_error_of_normal (hq : q = 0 ∨ 2 ^ (-1022 : ℤ) ≤ q) :
    |value (nearest q) - q| ≤ q * 2 ^ (-53 : ℤ) := by
  rcases hq with hzero | hnormal
  · rw [hzero, nearest_of_nonpos le_rfl, value_zero, sub_zero, abs_zero, zero_mul]
  · have hq : 0 ≤ q := le_trans (by positivity) hnormal
    refine (nearest_error_le hq).trans (max_le le_rfl ?_)
    calc (2 : ℚ) ^ (-1075 : ℤ) = 2 ^ (-1022 : ℤ) * 2 ^ (-53 : ℤ) := by
          rw [← zpow_add₀ two_ne_zero]
          rfl
      _ ≤ q * 2 ^ (-53 : ℤ) := by gcongr

/-- Numbers with a short significand are on the grid. -/
theorem value_nearest_of_grid {e : ℤ} (hm : m < 2 * binade)
    (he : minExponent ≤ e) :
    value (nearest ((m : ℚ) * 2 ^ e)) = (m : ℚ) * 2 ^ e := by
  rcases Nat.eq_zero_or_pos m with hzero | hpos
  · rw [hzero, Nat.cast_zero, zero_mul, nearest_of_nonpos le_rfl, value_zero]
  have hmpos : (0 : ℚ) < m := by exact_mod_cast hpos
  have hq : (0 : ℚ) < (m : ℚ) * 2 ^ e := by positivity
  obtain ⟨hlow, hhigh⟩ := log2_spec hpos.ne'
  have hord : binaryOrder ((m : ℚ) * 2 ^ e) = m.log2 + e := by
    apply binaryOrder_eq
    · rw [zpow_add₀ two_ne_zero]
      gcongr
    · rw [add_right_comm, zpow_add₀ two_ne_zero]
      gcongr
  have hupper : m.log2 < 53 :=
    (Nat.log2_lt hpos.ne').mpr (by unfold binade at hm; omega)
  -- the spacing divides `2 ^ e`, so there is nothing to round
  obtain ⟨d, hd⟩ : ∃ d : ℕ, e = spacing ((m : ℚ) * 2 ^ e) + d := by
    refine ⟨(e - spacing ((m : ℚ) * 2 ^ e)).toNat, ?_⟩
    unfold spacing
    rw [hord]
    omega
  have hscaled : (m : ℚ) * 2 ^ e / 2 ^ spacing ((m : ℚ) * 2 ^ e)
      = ((m * 2 ^ d : ℤ) : ℚ) := by
    rw [div_eq_iff (by positivity)]
    conv_lhs => rw [hd, zpow_add₀ two_ne_zero, zpow_natCast]
    push_cast
    ring
  rw [value_nearest hq, hscaled, roundHalfEven_intCast, ← hscaled,
    div_mul_cancel₀ _ (by positivity)]

theorem value_nearest_natCast (hm : m < 2 * binade) :
    value (nearest (m : ℚ)) = m := by
  have hgrid := value_nearest_of_grid (m := m) (e := 0) hm (by decide)
  rwa [zpow_zero, mul_one] at hgrid

/-- Up to a power of two rounding costs no more than the spacing below it
lets it, 2^-54 of that power. -/
theorem nearest_error_of_le {e : ℤ} (hq : 0 ≤ q) (hle : q ≤ 2 ^ e)
    (he : minExponent + 53 ≤ e) :
    |value (nearest q) - q| ≤ 2 ^ (e - 54) := by
  rcases hle.lt_or_eq with hlt | hpower
  · rcases hq.lt_or_eq with hpos | hzero
    · have hord : binaryOrder q < e := by
        have hlow := (binaryOrder_spec hpos).1
        exact (zpow_lt_zpow_iff_right₀ one_lt_two).mp (hlow.trans_lt hlt)
      have hspace : spacing q ≤ e - 53 := by
        unfold spacing
        omega
      refine (nearest_error hpos).trans ?_
      rw [div_le_iff₀ two_pos, ← zpow_add_one₀ two_ne_zero]
      exact zpow_le_zpow_right₀ one_le_two (by omega)
    · rw [← hzero, nearest_of_nonpos le_rfl, value_zero, sub_zero, abs_zero]
      positivity
  · have hgrid := value_nearest_of_grid (m := 1) (e := e) (by decide) (by omega)
    rw [Nat.cast_one, one_mul] at hgrid
    rw [hpower, hgrid, sub_self, abs_zero]
    positivity

/-- The next magnitude is one spacing away. -/
theorem value_succ (k : ℕ) : value (k + 1) = value k + 2 ^ exponent k := by
  obtain ⟨hparts, hsig, hcase⟩ := parts k
  have hnext : k + 1 = (k / binade - 1) * binade + (significand k + 1) := by omega
  rw [hnext, value_of_parts (by omega) (by omega), Nat.cast_succ, add_one_mul]
  rfl

/-- What is less than half a spacing past a magnitude is rounded away. -/
theorem nearest_add_of_lt_half {r : ℚ} (hr : 0 ≤ r) (hhalf : r < 2 ^ exponent k / 2) :
    nearest (value k + r) = k := by
  have hpow : (0 : ℚ) < 2 ^ exponent k := by positivity
  have hnext := value_succ k
  have hsig : ((significand k + 1 : ℕ) : ℚ) ≤ 2 * binade := by
    exact_mod_cast (parts k).2.1
  have hroom : value (k + 1) ≤ 2 ^ (exponent k + 53) := by
    calc value (k + 1) = (significand k + 1 : ℕ) * 2 ^ exponent k := by
          rw [hnext, value]
          push_cast
          ring
      _ ≤ 2 * binade * 2 ^ exponent k := by gcongr
      _ = 2 ^ (exponent k + 53) := by
          rw [binade_eq, zpow_add₀ two_ne_zero]
          norm_num
          ring
  have hmin := minExponent_le_exponent k
  have herror := nearest_error_of_le (add_nonneg (value_nonneg k) hr)
    (show value k + r ≤ 2 ^ (exponent k + 53) by linarith) (by omega)
  have hdown : exponent k + 53 - 54 = exponent k - 1 := by omega
  rw [hdown, zpow_sub_one₀ two_ne_zero, ← div_eq_mul_inv] at herror
  refine le_antisymm (Nat.le_of_lt_succ ?_) (le_nearest (le_add_of_nonneg_right hr))
  -- the next magnitude is more than half a spacing away
  refine value_strictMono.lt_iff_lt.mp ?_
  have hup := (abs_le.mp herror).2
  linarith

/-- From two binades on the magnitudes are at least two apart. -/
theorem one_le_exponent (hlarge : 2 * binade ≤ value k) : 1 ≤ exponent k := by
  by_contra hsmall
  have hsig : (significand k : ℚ) < 2 * binade := by exact_mod_cast (parts k).2.1
  have hpow : (2 : ℚ) ^ exponent k ≤ 1 := zpow_le_one_of_nonpos₀ one_le_two (by omega)
  have hvalue : value k ≤ significand k := mul_le_of_le_one_right (by positivity) hpow
  linarith

/-- A magnitude is an integer, or so small that the integers around it are
magnitudes as well. -/
theorem natCast_or_lt (k : ℕ) : (∃ n : ℕ, value k = n) ∨ value k < binade := by
  obtain ⟨-, hsig, -⟩ := parts k
  have hsig' : (significand k : ℚ) < 2 * binade := by exact_mod_cast hsig
  by_cases hexp : 0 ≤ exponent k
  · left
    obtain ⟨d, hd⟩ := Int.eq_ofNat_of_zero_le hexp
    refine ⟨significand k * 2 ^ d, ?_⟩
    unfold value
    rw [hd, zpow_natCast]
    push_cast
    rfl
  · right
    have hhalf : (2 : ℚ) ^ exponent k ≤ 2 ^ (-1 : ℤ) :=
      zpow_le_zpow_right₀ one_le_two (by omega)
    calc value k ≤ significand k * 2 ^ (-1 : ℤ) := by
          unfold value
          gcongr
      _ < 2 * binade * 2 ^ (-1 : ℤ) := by gcongr
      _ = binade := by
          rw [zpow_neg_one]
          ring

/-- One less than a magnitude between one and two binades is on the grid:
the spacing divides one. -/
theorem value_nearest_sub_one (hlow : 1 ≤ value k)
    (hhigh : value k < 2 * binade) :
    value (nearest (value k - 1)) = value k - 1 := by
  obtain ⟨-, hsig, hcase⟩ := parts k
  have hpow : (0 : ℚ) < 2 ^ exponent k := by positivity
  have hsig' : (significand k : ℚ) < 2 * binade := by exact_mod_cast hsig
  have hexp : exponent k ≤ 0 := by
    rcases hcase with hzero | hge
    · unfold exponent
      rw [hzero]
      decide
    · by_contra hpos
      have hge' : (binade : ℚ) ≤ significand k := by exact_mod_cast hge
      have htwo : (2 : ℚ) ^ (1 : ℤ) ≤ 2 ^ exponent k :=
        zpow_le_zpow_right₀ one_le_two (by omega)
      have hvalue : (binade : ℚ) * 2 ≤ value k := by
        unfold value
        rw [zpow_one] at htwo
        gcongr
      linarith
  obtain ⟨d, hd⟩ : ∃ d : ℕ, exponent k = -d := ⟨(exponent k).natAbs, by omega⟩
  have hone : (1 : ℚ) = (2 ^ d : ℕ) * 2 ^ exponent k := by
    rw [hd, zpow_neg, zpow_natCast]
    push_cast
    rw [mul_inv_cancel₀ (by positivity)]
  have hle : 2 ^ d ≤ significand k := by
    have hmul : ((2 ^ d : ℕ) : ℚ) * 2 ^ exponent k
        ≤ significand k * 2 ^ exponent k := hone ▸ hlow
    exact_mod_cast le_of_mul_le_mul_right hmul hpow
  have hsub : value k - 1
      = ((significand k - 2 ^ d : ℕ) : ℚ) * 2 ^ exponent k := by
    rw [Nat.cast_sub hle, sub_mul, ← hone]
    rfl
  rw [hsub]
  exact value_nearest_of_grid ((Nat.sub_le ..).trans_lt hsig)
    (minExponent_le_exponent k)

end Turnstile.Binary64.Rank
