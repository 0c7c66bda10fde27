/-
Arithmetic on the numbers that are not negative.

Such a number is its rank, infinity having the first rank past the grid
(`rank`), so order is the order of ranks (`Nonneg.lt_iff`) and an
operation is one rounding of exact magnitudes, cut off at the end of the
grid: `Nonneg.add`, `Nonneg.mul`, `Nonneg.div`, `Nonneg.sub`. The sum needs no
case for infinities, because the magnitude given to them, 2^1024, is
beyond every finite one.

Token counts, rates and spans of time are never negative, so these are
the laws that the rest of the library needs.

Chain (binary64): Binary64/Rank.lean below; consumed wherever a bucket
computes.
-/
import Mathlib
import Turnstile.Binary64.Arithmetic
import Turnstile.Proofs.Binary64.Rank

namespace Turnstile.Binary64

-- ======================================================= rank and sign

/-- The rank of the magnitude. Infinity has the first rank past the
grid. -/
def rank : Binary64 → ℕ
  | .nan => 0
  | .infinity _ => rankBound
  | .finite _ k => k

/-- The magnitude, 2^1024 for an infinity. -/
def magnitude (x : Binary64) : ℚ :=
  Rank.value x.rank

/-- The number is not a NaN and not below zero. -/
def Nonneg (x : Binary64) : Prop :=
  x.place? = some (x.rank : ℤ)

instance (x : Binary64) : Decidable x.Nonneg :=
  inferInstanceAs (Decidable (x.place? = some (x.rank : ℤ)))

variable {x y : Binary64} {s : Bool} {q : ℚ}

theorem magnitude_nonneg (x : Binary64) : 0 ≤ x.magnitude :=
  Rank.value_nonneg _

theorem rank_le_rankBound (x : Binary64) : x.rank ≤ rankBound := by
  cases x with
  | nan => exact Nat.zero_le _
  | infinity s => exact Nat.le_refl _
  | finite s k => exact k.isLt.le

theorem isFinite_of_rank (hx : x.Nonneg) (hrank : x.rank < rankBound) :
    x.isFinite = true := by
  cases x with
  | nan => cases hx
  | infinity s => exact absurd hrank (Nat.lt_irrefl _)
  | finite s k => rfl

theorem rank_lt_of_isFinite (hx : x.isFinite = true) :
    x.rank < rankBound := by
  cases x with
  | nan => decide
  | infinity s => cases hx
  | finite s k => exact k.isLt

/-- The magnitude of a rank that is cut off at the end of the grid. -/
theorem magnitude_of_rank {k : ℕ} (hrank : x.rank = min k rankBound) :
    x.magnitude = min (Rank.value k) (2 ^ (1024 : ℤ)) := by
  rw [magnitude, hrank, Rank.value_min, Rank.value_rankBound]

theorem magnitude_of_finite {k : ℕ} (hfin : x.isFinite = true)
    (hrank : x.rank = min k rankBound) : x.magnitude = Rank.value k := by
  have hlt := rank_lt_of_isFinite hfin
  rw [magnitude, hrank, Nat.min_eq_left (by omega)]

/-- A number that is not negative is infinity or a finite number whose
value is its magnitude. -/
theorem Nonneg.eq_or (hx : x.Nonneg) :
    x = .infinity false ∨ ∃ s k, x = .finite s k ∧ signed s k = x.magnitude := by
  cases x with
  | nan => cases hx
  | infinity s =>
      cases s with
      | false => exact Or.inl rfl
      | true =>
          have hplace : -(rankBound : ℤ) = rankBound := Option.some.inj hx
          exact absurd hplace (by decide)
  | finite s k =>
      right
      refine ⟨s, k, rfl, ?_⟩
      cases s with
      | false => rfl
      | true =>
          have hplace : -(k.val : ℤ) = (k.val : ℤ) := Option.some.inj hx
          have hzero : k.val = 0 := by omega
          show -Rank.value k.val = Rank.value k.val
          rw [hzero, Rank.value_zero, neg_zero]

/-- A number of the first rank past the grid is infinity. -/
theorem Nonneg.eq_infinity (hx : x.Nonneg) (hrank : rankBound ≤ x.rank) :
    x = .infinity false := by
  rcases hx.eq_or with hinf | ⟨s, k, rfl, -⟩
  · exact hinf
  · exact absurd hrank (not_le.mpr k.isLt)

theorem Nonneg.toRat?_eq (hx : x.Nonneg) (hfin : x.isFinite = true) :
    x.toRat? = some x.magnitude := by
  rcases hx.eq_or with rfl | ⟨s, k, rfl, hvalue⟩
  · cases hfin
  · exact congrArg some hvalue

-- ============================================================ the order

theorem zero_def : (0 : Binary64) = zero false := by decide

theorem nonneg_zero : (zero s).Nonneg := by
  cases s <;> decide

theorem nonneg_iff_zero_le : x.Nonneg ↔ 0 ≤ x := by
  have hzero : (0 : Binary64).place? = some 0 := by decide
  show _ ↔ le 0 x = true
  unfold Nonneg le
  rw [hzero]
  cases x with
  | nan => exact ⟨fun h => (nomatch h), fun h => (nomatch h)⟩
  | infinity s => cases s <;> simp [place?, rank]
  | finite s k => cases s <;> simp [place?, rank]

theorem nonneg_of_pos (hx : 0 < x) : x.Nonneg := by
  have hpos : lt 0 x = true := hx
  have hle : le 0 x = true := by
    unfold lt at hpos
    unfold le
    split at hpos
    case h_1 => simpa using (of_decide_eq_true hpos).le
    case h_2 => cases hpos
  exact nonneg_iff_zero_le.mpr hle

theorem Nonneg.lt_iff (hx : x.Nonneg) (hy : y.Nonneg) :
    x < y ↔ x.rank < y.rank := by
  show lt x y = true ↔ _
  unfold lt
  rw [hx, hy]
  simp

theorem Nonneg.le_iff (hx : x.Nonneg) (hy : y.Nonneg) :
    x ≤ y ↔ x.rank ≤ y.rank := by
  show le x y = true ↔ _
  unfold le
  rw [hx, hy]
  simp

theorem Nonneg.le_iff_magnitude (hx : x.Nonneg) (hy : y.Nonneg) :
    x ≤ y ↔ x.magnitude ≤ y.magnitude :=
  (hx.le_iff hy).trans Rank.value_le_value.symm

/-- What is not below such a number is one itself. -/
theorem Nonneg.of_le (hx : x.Nonneg) (hle : x ≤ y) : y.Nonneg := by
  have hplace : le x y = true := hle
  have hzero : (0 : Binary64).place? = some 0 := by decide
  rw [nonneg_iff_zero_le]
  show le 0 y = true
  unfold le at hplace ⊢
  rw [hx] at hplace
  rw [hzero]
  split at hplace
  case h_1 a b ha hb =>
    obtain rfl := Option.some.inj ha
    rw [hb]
    exact decide_eq_true ((Int.natCast_nonneg _).trans (of_decide_eq_true hplace))
  case h_2 => cases hplace

theorem Nonneg.not_isNaN (hx : x.Nonneg) : x.isNaN = false := by
  cases x with
  | nan => cases hx
  | infinity s => rfl
  | finite s k => rfl

theorem exists_place (hx : x.isNaN = false) : ∃ a, x.place? = some a := by
  cases x with
  | nan => cases hx
  | infinity negative => exact ⟨_, rfl⟩
  | finite negative rank => exact ⟨_, rfl⟩

theorem not_isNaN_of_isFinite (hx : x.isFinite = true) : x.isNaN = false := by
  cases x with
  | nan => cases hx
  | infinity negative => rfl
  | finite negative rank => rfl

/-- Numbers that are not NaN are ordered one way or the other. -/
theorem not_le_iff (hx : x.isNaN = false) (hy : y.isNaN = false) :
    ¬x ≤ y ↔ y < x := by
  obtain ⟨a, ha⟩ := exists_place hx
  obtain ⟨b, hb⟩ := exists_place hy
  show ¬le x y = true ↔ lt y x = true
  unfold le lt
  rw [ha, hb]
  simp

/-- From such a number on the order is transitive. -/
theorem Nonneg.le_trans {z : Binary64} (hx : x.Nonneg) (hxy : x ≤ y) (hyz : y ≤ z) :
    x ≤ z := by
  have hy := hx.of_le hxy
  have hz := hy.of_le hyz
  exact (hx.le_iff hz).mpr (((hx.le_iff hy).mp hxy).trans ((hy.le_iff hz).mp hyz))

/-- Apart from the two zeros, equal ranks are equal numbers. -/
theorem Nonneg.eq_of_rank_eq (hx : x.Nonneg) (hy : y.Nonneg)
    (hrank : x.rank = y.rank) (hpos : 0 < y.rank) : x = y := by
  have hsign : ∀ z : Binary64, z.Nonneg → 0 < z.rank →
      z = ofRank false z.rank := by
    intro z hz hzpos
    rcases hz.eq_or with rfl | ⟨s, k, rfl, hvalue⟩
    · rfl
    · cases s with
      | false =>
          show Binary64.finite false k = ofRank false k.val
          rw [ofRank, dif_pos k.isLt]
      | true =>
          have hlt : 0 < Rank.value k.val := Rank.value_pos hzpos
          have hneg : -Rank.value k.val = Rank.value k.val := hvalue
          linarith
  rw [hsign x hx (hrank ▸ hpos), hsign y hy hpos, hrank]

theorem Nonneg.lesser (hx : x.Nonneg) (hy : y.Nonneg) :
    (x.lesser y).Nonneg ∧ (x.lesser y).rank = min x.rank y.rank := by
  unfold Binary64.lesser
  rw [hx.not_isNaN, hy.not_isNaN]
  simp only [Bool.false_eq_true, if_false]
  by_cases hlt : y < x
  · rw [if_pos hlt]
    have hrank := (hy.lt_iff hx).mp hlt
    exact ⟨hy, (Nat.min_eq_right hrank.le).symm⟩
  · rw [if_neg hlt]
    have hrank := mt (hy.lt_iff hx).mpr hlt
    exact ⟨hx, (Nat.min_eq_left (not_lt.mp hrank)).symm⟩

-- ========================================================= one rounding

theorem nonneg_ofRank (k : ℕ) : (ofRank false k).Nonneg := by
  unfold ofRank
  split <;> rfl

theorem rank_ofRank (k : ℕ) : (ofRank s k).rank = min k rankBound := by
  unfold ofRank
  split
  case isTrue h => exact (Nat.min_eq_left h.le).symm
  case isFalse h => exact (Nat.min_eq_right (not_lt.mp h)).symm

theorem nonneg_ofRat (hq : 0 ≤ q) : (ofRat s q).Nonneg := by
  unfold ofRat
  rw [if_neg (not_lt.mpr hq)]
  split
  · exact nonneg_zero
  · exact nonneg_ofRank _

theorem rank_ofRat (hq : 0 ≤ q) :
    (ofRat s q).rank = min (Rank.nearest q) rankBound := by
  unfold ofRat
  rw [if_neg (not_lt.mpr hq)]
  split
  case isTrue hzero =>
    rw [hzero, Rank.nearest_of_nonpos le_rfl]
    rfl
  case isFalse => exact rank_ofRank _

theorem magnitude_ofRat (hq : 0 ≤ q) (hhigh : q ≤ 2 ^ (1023 : ℤ)) :
    (ofRat s q).magnitude = Rank.value (Rank.nearest q) := by
  have hlt := Rank.nearest_lt_rankBound hhigh
  rw [magnitude, rank_ofRat hq, Nat.min_eq_left hlt.le]

theorem nonneg_ofNat (n : ℕ) : (ofNat n).Nonneg :=
  nonneg_ofRat (Nat.cast_nonneg n)

theorem rank_ofNat (n : ℕ) :
    (ofNat n).rank = min (Rank.nearest n) rankBound :=
  rank_ofRat (Nat.cast_nonneg n)

theorem natCast_le_of_lt {n : ℕ} (hn : n < 2 * binade) :
    (n : ℚ) ≤ 2 ^ (1023 : ℤ) := by
  have hcast : (n : ℚ) < 2 * binade := by exact_mod_cast hn
  refine hcast.le.trans ?_
  rw [Rank.binade_eq, ← zpow_one_add₀ two_ne_zero]
  exact zpow_le_zpow_right₀ one_le_two (by decide)

theorem magnitude_ofNat {n : ℕ} (hn : n < 2 * binade) :
    (ofNat n).magnitude = n := by
  rw [show ofNat n = ofRat false n from rfl,
    magnitude_ofRat (Nat.cast_nonneg n) (natCast_le_of_lt hn),
    Rank.value_nearest_natCast hn]

theorem isFinite_ofNat {n : ℕ} (hn : n < 2 * binade) :
    (ofNat n).isFinite = true := by
  refine isFinite_of_rank (nonneg_ofNat n) ?_
  rw [rank_ofNat]
  exact lt_of_le_of_lt (Nat.min_le_left ..)
    (Rank.nearest_lt_rankBound (natCast_le_of_lt hn))

theorem rank_pos_iff : 0 < x.rank ↔ 0 < x.magnitude := by
  unfold magnitude
  conv_rhs => rw [← Rank.value_zero]
  exact Rank.value_strictMono.lt_iff_lt.symm

theorem rank_pos_of_pos (hx : 0 < x) : 0 < x.rank := by
  have hpos := hx
  rw [zero_def] at hpos
  exact (nonneg_zero.lt_iff (nonneg_of_pos hx)).mp hpos

theorem rank_ofNat_pos {n : ℕ} (hpos : 0 < n) (hn : n < 2 * binade) :
    0 < (ofNat n).rank := by
  rw [rank_pos_iff, magnitude_ofNat hn]
  exact_mod_cast hpos

-- ======================================================= the operations

/-- Infinity or not, a sum that is not below the end of the grid is
infinite. -/
theorem rankBound_le_nearest_add {j k : ℕ} (hj : rankBound ≤ j) :
    rankBound ≤ Rank.nearest (Rank.value j + Rank.value k) := by
  refine hj.trans (Rank.le_nearest ?_)
  exact le_add_of_nonneg_right (Rank.value_nonneg k)

/-- The sum is not negative, and is the rounded sum of the magnitudes. -/
theorem Nonneg.add (hx : x.Nonneg) (hy : y.Nonneg) :
    (x + y).Nonneg
      ∧ (x + y).rank
        = min (Rank.nearest (x.magnitude + y.magnitude)) rankBound := by
  rcases hx.eq_or with rfl | ⟨s, j, rfl, hxv⟩
  · have hbound := rankBound_le_nearest_add (k := y.rank) (Nat.le_refl rankBound)
    have hsum : Binary64.infinity false + y = .infinity false := by
      rcases hy.eq_or with rfl | ⟨t, k, rfl, -⟩ <;> rfl
    rw [hsum]
    exact ⟨rfl, (Nat.min_eq_right hbound).symm⟩
  · rcases hy.eq_or with rfl | ⟨t, k, rfl, hyv⟩
    · have hbound := rankBound_le_nearest_add (k := j) (Nat.le_refl rankBound)
      rw [add_comm] at hbound
      exact ⟨rfl, (Nat.min_eq_right hbound).symm⟩
    · have hsum : Binary64.finite s j + .finite t k
          = ofRat (s && t) (signed s j + signed t k) := rfl
      have hpos := add_nonneg (magnitude_nonneg (.finite s j))
        (magnitude_nonneg (.finite t k))
      rw [hsum, hxv, hyv]
      exact ⟨nonneg_ofRat hpos, rank_ofRat hpos⟩

/-- The product with a positive finite number is not negative. -/
theorem Nonneg.mul_of_pos (hx : x.Nonneg) (hy : y.Nonneg)
    (hfin : y.isFinite = true) (hpos : 0 < y.rank) : (x * y).Nonneg := by
  rcases hy.eq_or with rfl | ⟨t, k, rfl, hyv⟩
  · cases hfin
  have hk : k.val ≠ 0 := Nat.pos_iff_ne_zero.mp hpos
  have hsign : t = false := by
    cases t with
    | false => rfl
    | true =>
        have hlt : 0 < Rank.value k.val := Rank.value_pos hpos
        have hneg : -Rank.value k.val = Rank.value k.val := hyv
        linarith
  rcases hx.eq_or with rfl | ⟨s, j, rfl, hxv⟩
  · have hprod : Binary64.infinity false * .finite t k = .infinity false := by
      show (if k.val = 0 then nan else infinity (false != t)) = _
      rw [if_neg hk, hsign]
      rfl
    rw [hprod]
    rfl
  · have hprod : Binary64.finite s j * .finite t k
        = ofRat (s != t) (signed s j * signed t k) := rfl
    rw [hprod, hxv, hyv]
    exact nonneg_ofRat (mul_nonneg (magnitude_nonneg _) (magnitude_nonneg _))

/-- The product of finite numbers is the rounded product of the
magnitudes. -/
theorem Nonneg.mul (hx : x.Nonneg) (hy : y.Nonneg)
    (hxfin : x.isFinite = true) (hyfin : y.isFinite = true) :
    (x * y).Nonneg
      ∧ (x * y).rank
        = min (Rank.nearest (x.magnitude * y.magnitude)) rankBound := by
  rcases hx.eq_or with rfl | ⟨s, j, rfl, hxv⟩
  · cases hxfin
  rcases hy.eq_or with rfl | ⟨t, k, rfl, hyv⟩
  · cases hyfin
  have hprod : Binary64.finite s j * .finite t k
      = ofRat (s != t) (signed s j * signed t k) := rfl
  have hpos := mul_nonneg (magnitude_nonneg (.finite s j))
    (magnitude_nonneg (.finite t k))
  rw [hprod, hxv, hyv]
  exact ⟨nonneg_ofRat hpos, rank_ofRat hpos⟩

theorem rank_infinity_mul {z : Binary64} (hz : z.Nonneg)
    (hfin : z.isFinite = true) (hpos : 0 < z.rank) :
    (infinity false * z).rank = rankBound := by
  rcases hz.eq_or with rfl | ⟨t, k, rfl, -⟩
  · cases hfin
  · have hk : k.val ≠ 0 := Nat.pos_iff_ne_zero.mp hpos
    show (if k.val = 0 then nan else infinity (false != t)).rank = _
    rw [if_neg hk]
    rfl

/-- A larger factor gives no smaller product; infinity is the largest. -/
theorem Nonneg.rank_mul_le_rank_mul {z : Binary64} (hx : x.Nonneg) (hy : y.Nonneg)
    (hz : z.Nonneg) (hfin : z.isFinite = true) (hpos : 0 < z.rank)
    (hle : x.rank ≤ y.rank) : (x * z).rank ≤ (y * z).rank := by
  rcases hy.eq_or with rfl | ⟨t, k, rfl, -⟩
  · rw [rank_infinity_mul hz hfin hpos]
    exact rank_le_rankBound _
  · have hxfin : x.isFinite = true :=
      isFinite_of_rank hx (hle.trans_lt k.isLt)
    rw [(hx.mul hz hxfin hfin).2, (hy.mul hz rfl hfin).2]
    refine min_le_min (Rank.nearest_mono ?_) le_rfl
    exact mul_le_mul_of_nonneg_right (Rank.value_le_value.mpr hle)
      (magnitude_nonneg z)

/-- The quotient by a positive finite number is the rounded quotient of
the magnitudes. -/
theorem Nonneg.div (hx : x.Nonneg) (hy : y.Nonneg)
    (hxfin : x.isFinite = true) (hyfin : y.isFinite = true)
    (hypos : 0 < y.rank) :
    (x / y).Nonneg
      ∧ (x / y).rank
        = min (Rank.nearest (x.magnitude / y.magnitude)) rankBound := by
  rcases hx.eq_or with rfl | ⟨s, j, rfl, hxv⟩
  · cases hxfin
  rcases hy.eq_or with rfl | ⟨t, k, rfl, hyv⟩
  · cases hyfin
  have hk : k.val ≠ 0 := Nat.pos_iff_ne_zero.mp hypos
  have hquot : Binary64.finite s j / .finite t k
      = ofRat (s != t) (signed s j / signed t k) := by
    show (if k.val = 0 then if j.val = 0 then nan else infinity (s != t)
      else ofRat (s != t) (signed s j / signed t k)) = _
    rw [if_neg hk]
  have hpos := div_nonneg (magnitude_nonneg (.finite s j))
    (magnitude_nonneg (.finite t k))
  rw [hquot, hxv, hyv]
  exact ⟨nonneg_ofRat hpos, rank_ofRat hpos⟩

/-- The difference from a smaller number is the rounded difference of the
magnitudes. -/
theorem Nonneg.sub (hx : x.Nonneg) (hy : y.Nonneg)
    (hxfin : x.isFinite = true) (hle : y ≤ x) :
    (x - y).Nonneg
      ∧ (x - y).rank
        = min (Rank.nearest (x.magnitude - y.magnitude)) rankBound := by
  have hmag := (hy.le_iff_magnitude hx).mp hle
  rcases hx.eq_or with rfl | ⟨s, j, rfl, hxv⟩
  · cases hxfin
  rcases hy.eq_or with rfl | ⟨t, k, rfl, hyv⟩
  · have hrank := (hy.le_iff hx).mp hle
    exact absurd (rank_lt_of_isFinite hxfin) (not_lt.mpr hrank)
  have hneg : signed (!t) k = -signed t k := by
    cases t <;> simp [signed]
  have hdiff : Binary64.finite s j - .finite t k
      = ofRat (s && !t) (signed s j + signed (!t) k) := rfl
  have hpos := sub_nonneg.mpr hmag
  rw [hdiff, hneg, ← sub_eq_add_neg, hxv, hyv]
  exact ⟨nonneg_ofRat hpos, rank_ofRat hpos⟩

-- ============================================================ the sign

theorem isNegative_ofRank (s : Bool) (k : ℕ) : (ofRank s k).isNegative = s := by
  unfold ofRank
  split <;> rfl

theorem isNegative_ofRat (hq : 0 ≤ q) : (ofRat false q).isNegative = false := by
  unfold ofRat
  rw [if_neg (not_lt.mpr hq)]
  split
  · rfl
  · exact isNegative_ofRank false _

theorem isNegative_of_pos (hx : 0 < x) : x.isNegative = false := by
  rcases (nonneg_of_pos hx).eq_or with rfl | ⟨s, k, rfl, hvalue⟩
  · rfl
  · cases s with
    | false => rfl
    | true =>
        have hpos : 0 < Rank.value k.val := Rank.value_pos (rank_pos_of_pos hx)
        have hneg : -Rank.value k.val = Rank.value k.val := hvalue
        linarith

/-- A sum of numbers that are not negative is a negative zero only if both
are. -/
theorem Nonneg.isNegative_add (hx : x.Nonneg) (hy : y.Nonneg)
    (hplus : x.isNegative = false ∨ y.isNegative = false) :
    (x + y).isNegative = false := by
  rcases hx.eq_or with rfl | ⟨s, j, rfl, hxv⟩
  · rcases hy.eq_or with rfl | ⟨t, k, rfl, -⟩ <;> rfl
  · rcases hy.eq_or with rfl | ⟨t, k, rfl, hyv⟩
    · rfl
    · have hsum : Binary64.finite s j + .finite t k
          = ofRat (s && t) (signed s j + signed t k) := rfl
      have hsign : (s && t) = false := by
        rcases hplus with hs | ht
        · rw [show s = false from hs, Bool.false_and]
        · rw [show t = false from ht, Bool.and_false]
      rw [hsum, hsign, hxv, hyv]
      exact isNegative_ofRat (add_nonneg (magnitude_nonneg _) (magnitude_nonneg _))

theorem Nonneg.isNegative_mul (hx : x.Nonneg) (hy : y.Nonneg)
    (hfin : y.isFinite = true) (hxplus : x.isNegative = false)
    (hyplus : y.isNegative = false) : (x * y).isNegative = false := by
  rcases hy.eq_or with rfl | ⟨t, k, rfl, -⟩
  · cases hfin
  obtain rfl : t = false := hyplus
  rcases hx.eq_or with rfl | ⟨s, j, rfl, -⟩
  · show (if k.val = 0 then nan else infinity false).isNegative = false
    split <;> rfl
  · obtain rfl : s = false := hxplus
    exact isNegative_ofRat (mul_nonneg (Rank.value_nonneg j) (Rank.value_nonneg k))

theorem isNegative_lesser (hx : x.isNegative = false) (hy : y.isNegative = false) :
    (x.lesser y).isNegative = false := by
  unfold Binary64.lesser
  split_ifs <;> assumption

/-- Numbers that are not negative, nor a negative zero, are told by their
ranks. -/
theorem Nonneg.eq_of_rank_eq_of_plus (hx : x.Nonneg) (hy : y.Nonneg)
    (hxplus : x.isNegative = false) (hyplus : y.isNegative = false)
    (hrank : x.rank = y.rank) : x = y := by
  rcases Nat.eq_zero_or_pos y.rank with hzero | hpos
  case inr => exact hx.eq_of_rank_eq hy hrank hpos
  have hplus : ∀ z : Binary64, z.Nonneg → z.isNegative = false → z.rank = 0 →
      z = zero false := by
    intro z hz hsign hrank
    rcases hz.eq_or with rfl | ⟨s, k, rfl, -⟩
    · cases hrank
    · obtain rfl : s = false := hsign
      exact congrArg (Binary64.finite false) (Fin.ext hrank)
  rw [hplus x hx hxplus (hrank.trans hzero), hplus y hy hyplus hzero]

-- =========================================================== to integers

/-- Rounded up, a number is the rounded ceiling of its magnitude. -/
theorem Nonneg.ceil (hx : x.Nonneg) (hfin : x.isFinite = true) :
    x.ceil.Nonneg
      ∧ x.ceil.rank = min (Rank.nearest (x.magnitude.ceil : ℚ)) rankBound := by
  rcases hx.eq_or with rfl | ⟨s, k, rfl, hvalue⟩
  · cases hfin
  have hceil : (finite s k).ceil = ofRat s ((signed s k).ceil : ℚ) := rfl
  have hpos := (magnitude_nonneg (finite s k)).trans Rat.le_ceil
  rw [hceil, hvalue]
  exact ⟨nonneg_ofRat hpos, rank_ofRat hpos⟩

/-- Rounded to the nearest integer, a number is the rounded one of its
magnitude. -/
theorem Nonneg.round (hx : x.Nonneg) (hfin : x.isFinite = true) :
    x.round.Nonneg
      ∧ x.round.rank
        = min (Rank.nearest ((x.magnitude + 1 / 2).floor : ℚ)) rankBound := by
  rcases hx.eq_or with rfl | ⟨s, k, rfl, hvalue⟩
  · cases hfin
  have hround : (finite s k).round = ofRat s (roundHalfAway (signed s k) : ℚ) := rfl
  have hmag := magnitude_nonneg (finite s k)
  have hfloor : roundHalfAway (finite s k).magnitude
      = ((finite s k).magnitude + 1 / 2).floor := by
    rw [roundHalfAway, if_neg (not_lt.mpr hmag)]
  have hpos : (0 : ℚ) ≤ (((finite s k).magnitude + 1 / 2).floor : ℚ) := by
    exact_mod_cast Int.floor_nonneg.mpr (add_nonneg hmag (by norm_num))
  rw [hround, hvalue, hfloor]
  exact ⟨nonneg_ofRat hpos, rank_ofRat hpos⟩

/-- A number less than one away from a natural number is that number, or so
small that the natural numbers around it are on the grid. -/
theorem eq_or_lt_of_near {n : ℕ} (hnear : |x.magnitude - n| < 1) :
    x.magnitude = n ∨ x.magnitude < binade := by
  rcases Rank.natCast_or_lt x.rank with ⟨m, hm⟩ | hsmall
  · left
    have hmag : x.magnitude = m := hm
    rw [hmag] at hnear ⊢
    obtain ⟨hlow, hhigh⟩ := abs_lt.mp hnear
    have hbounds : (m : ℚ) < n + 1 ∧ (n : ℚ) < m + 1 := by
      constructor <;> linarith
    have hnat : m < n + 1 ∧ n < m + 1 := by exact_mod_cast hbounds
    rw [show m = n by omega]
  · exact Or.inr hsmall

/-- A natural number less than one away from a finite number is not
rounded. -/
theorem exact_of_near {n : ℕ} (hfin : x.isFinite = true) (hy : y.Nonneg)
    (hrank : y.rank = min (Rank.nearest (n : ℚ)) rankBound)
    (hnear : |x.magnitude - n| < 1) : y.isFinite = true ∧ y.magnitude = n := by
  have hexact : Rank.nearest (n : ℚ) < rankBound
      ∧ Rank.value (Rank.nearest (n : ℚ)) = n := by
    rcases eq_or_lt_of_near hnear with hsame | hsmall
    · rw [← hsame, magnitude, Rank.nearest_value]
      exact ⟨rank_lt_of_isFinite hfin, rfl⟩
    · have hlow := (abs_lt.mp hnear).1
      have hn : n < 2 * binade := by
        have hone : (1 : ℚ) ≤ binade := by norm_num [binade]
        have hcast : (n : ℚ) < (2 * binade : ℕ) := by
          push_cast
          linarith
        exact_mod_cast hcast
      exact ⟨Rank.nearest_lt_rankBound (natCast_le_of_lt hn),
        Rank.value_nearest_natCast hn⟩
  rw [Nat.min_eq_left hexact.1.le] at hrank
  refine ⟨isFinite_of_rank hy (hrank ▸ hexact.1), ?_⟩
  rw [magnitude, hrank, hexact.2]

/-- A finite number is rounded up to a natural number, and to no other. -/
theorem Nonneg.ceil_exact (hx : x.Nonneg) (hfin : x.isFinite = true) :
    ∃ n : ℕ, x.ceil.Nonneg ∧ x.ceil.isFinite = true ∧ x.ceil.magnitude = n
      ∧ x.magnitude ≤ n ∧ (n : ℚ) < x.magnitude + 1 := by
  obtain ⟨hceil, hrank⟩ := hx.ceil hfin
  have hup : x.magnitude ≤ x.magnitude.ceil := Rat.le_ceil
  have hnear : (x.magnitude.ceil : ℚ) < x.magnitude + 1 := Rat.ceil_lt
  obtain ⟨n, hn⟩ : ∃ n : ℕ, x.magnitude.ceil = n := by
    refine Int.eq_ofNat_of_zero_le ?_
    exact_mod_cast (magnitude_nonneg x).trans hup
  rw [hn, Int.cast_natCast] at hup hnear hrank
  obtain ⟨hceil_fin, hmag⟩ := exact_of_near hfin hceil hrank
    (abs_lt.mpr ⟨by linarith, by linarith⟩)
  exact ⟨n, hceil, hceil_fin, hmag, hup, hnear⟩

/-- A finite number is rounded to a natural number at most a half away. -/
theorem Nonneg.round_exact (hx : x.Nonneg) (hfin : x.isFinite = true) :
    ∃ n : ℕ, x.round.Nonneg ∧ x.round.isFinite = true ∧ x.round.magnitude = n
      ∧ x.magnitude - 1 / 2 < n ∧ (n : ℚ) ≤ x.magnitude + 1 / 2 := by
  obtain ⟨hround, hrank⟩ := hx.round hfin
  have hdown : ((x.magnitude + 1 / 2).floor : ℚ) ≤ x.magnitude + 1 / 2 :=
    Rat.floor_le _
  have hnear : x.magnitude + 1 / 2 < (x.magnitude + 1 / 2).floor + 1 :=
    Int.lt_floor_add_one _
  obtain ⟨n, hn⟩ : ∃ n : ℕ, (x.magnitude + 1 / 2).floor = n := by
    refine Int.eq_ofNat_of_zero_le ?_
    exact_mod_cast Int.floor_nonneg.mpr
      (add_nonneg (magnitude_nonneg x) (by norm_num : (0 : ℚ) ≤ 1 / 2))
  rw [hn, Int.cast_natCast] at hdown hnear hrank
  obtain ⟨hround_fin, hmag⟩ := exact_of_near hfin hround hrank
    (abs_lt.mpr ⟨by linarith, by linarith⟩)
  exact ⟨n, hround, hround_fin, hmag, by linarith, hdown⟩

theorem Nonneg.saturate (hx : x.Nonneg) (hfin : x.isFinite = true) (bound : ℕ) :
    x.saturate bound = min x.magnitude.floor.toNat bound := by
  rcases hx.eq_or with rfl | ⟨s, k, rfl, hvalue⟩
  · cases hfin
  · rw [← hvalue]
    rfl

-- ======================================================= at or below zero

theorem ofRank_le_zero (k : ℕ) : ofRank true k ≤ 0 := by
  have hzero : (0 : Binary64).place? = some 0 := by decide
  show le (ofRank true k) 0 = true
  unfold le ofRank
  rw [hzero]
  split_ifs <;> simp [place?]

theorem ofRat_le_zero (hq : q ≤ 0) : ofRat s q ≤ 0 := by
  unfold ofRat
  rcases hq.lt_or_eq with hneg | hzero
  · rw [if_pos hneg]
    exact ofRank_le_zero _
  · rw [if_neg hzero.not_lt, if_pos hzero]
    cases s <;> decide

/-- A number at or below zero has a sign, or is a zero. -/
theorem signed_nonpos {k : Fin rankBound} (hle : finite s k ≤ 0) : signed s k ≤ 0 := by
  cases s with
  | true => exact neg_nonpos.mpr (Rank.value_nonneg _)
  | false =>
      have hnonneg : (finite false k).Nonneg := rfl
      rw [zero_def, hnonneg.le_iff nonneg_zero] at hle
      have hzero : k.val = 0 := Nat.le_zero.mp hle
      show Rank.value k.val ≤ 0
      rw [hzero, Rank.value_zero]

theorem ceil_le_zero (hle : x ≤ 0) : x.ceil ≤ 0 := by
  cases x with
  | nan => exact hle
  | infinity negative => exact hle
  | finite negative k =>
      have hvalue : signed negative k ≤ (0 : ℤ) := by exact_mod_cast signed_nonpos hle
      have hceil : (signed negative k).ceil ≤ 0 := Rat.ceil_le_iff.mpr hvalue
      exact ofRat_le_zero (by exact_mod_cast hceil)

end Turnstile.Binary64
