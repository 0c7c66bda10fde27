/-
Spans of time in seconds, exactly and in binary64.

`seconds` is the exact quotient and `secondsOf` the binary64 reading,
which rounds three times: the whole seconds, the rest, and their sum. The
reading is never negative (`nonneg_secondsOf`), finite for every span that
a duration can hold (`isFinite_secondsOf`), and where it is finite, off by a
share of less than three units of 2^-53 (`secondsOf_error`). Below 2^53
seconds the whole ones are exact, so hardly more than the sum is rounded
(`le_magnitude_secondsOf`, `secondsOf_error_of_short`); from there on the rest
is rounded away (`rank_secondsOf_of_coarse`). So the reading grows with every
span (`rank_secondsOf_mono`), and it is exact on whole fractions of a second
whose denominator is a power of two (`magnitude_secondsOf_of_grid`).

Chain (time): Binary64/Nonneg.lean and Binary64/Dyadic.lean below; the
credit of a bucket (Bucket/Accuracy.lean, Bucket/Exact.lean) and its interval
(Bucket/Rate.lean, Bucket/Interval.lean) above.
-/
import Mathlib
import Turnstile.Duration.Basic
import Turnstile.Proofs.Binary64.Dyadic
import Turnstile.Proofs.Binary64.Nonneg

namespace Turnstile

open Binary64

/-- A span of nanoseconds in seconds, exactly. -/
def seconds (nanos : ℕ) : ℚ :=
  nanos / nanosPerSecond

variable {nanos : ℕ}

theorem seconds_nonneg (nanos : ℕ) : 0 ≤ seconds nanos := by
  unfold seconds
  positivity

theorem seconds_add (a b : ℕ) : seconds (a + b) = seconds a + seconds b := by
  unfold seconds
  push_cast
  rw [add_div]

theorem seconds_mul (n nanos : ℕ) : seconds (n * nanos) = n * seconds nanos := by
  unfold seconds
  push_cast
  rw [mul_div_assoc]

theorem seconds_mono {a b : ℕ} (hle : a ≤ b) : seconds a ≤ seconds b := by
  obtain ⟨rest, rfl⟩ := Nat.exists_eq_add_of_le hle
  rw [seconds_add]
  exact le_add_of_nonneg_right (seconds_nonneg rest)

theorem seconds_split (nanos : ℕ) :
    seconds nanos = (nanos / nanosPerSecond : ℕ)
      + ((nanos % nanosPerSecond : ℕ) : ℚ) / nanosPerSecond := by
  have hsplit := Nat.div_add_mod nanos nanosPerSecond
  have hpos : (nanosPerSecond : ℚ) ≠ 0 := by norm_num [nanosPerSecond]
  unfold seconds
  conv_lhs => rw [← hsplit]
  push_cast
  rw [add_div, mul_div_cancel_left₀ _ hpos]

/-- The bound of a word is a power of two. -/
theorem magnitude_wordBound : (ofNat wordBound).magnitude = wordBound := by
  decide +kernel

-- ============================================================= the parts

def restOf (nanos : ℕ) : Binary64 :=
  .ofNat (nanos % nanosPerSecond) / .ofNat nanosPerSecond

theorem rest_le_one (nanos : ℕ) :
    ((nanos % nanosPerSecond : ℕ) : ℚ) / nanosPerSecond ≤ 1 := by
  have hlt : nanos % nanosPerSecond < nanosPerSecond := Nat.mod_lt _ (by decide)
  refine div_le_one_of_le₀ ?_ (by positivity)
  exact_mod_cast hlt.le

/-- The rest is one rounding of the exact quotient. -/
theorem restOf_spec (nanos : ℕ) :
    (restOf nanos).Nonneg
      ∧ (restOf nanos).magnitude
        = Rank.value (Rank.nearest
            (((nanos % nanosPerSecond : ℕ) : ℚ) / nanosPerSecond)) := by
  have hlt : nanos % nanosPerSecond < nanosPerSecond := Nat.mod_lt _ (by decide)
  have hsmall : nanos % nanosPerSecond < 2 * binade := hlt.trans (by decide)
  have hmag := magnitude_ofNat hsmall
  have hunit : (ofNat nanosPerSecond).magnitude = nanosPerSecond :=
    magnitude_ofNat (by decide)
  obtain ⟨hnonneg, hrank⟩ := (nonneg_ofNat (nanos % nanosPerSecond)).div
    (nonneg_ofNat nanosPerSecond) (isFinite_ofNat hsmall)
    (isFinite_ofNat (by decide)) (rank_ofNat_pos (by decide) (by decide))
  rw [hmag, hunit] at hrank
  have hone : (1 : ℚ) ≤ 2 ^ (1023 : ℤ) := one_le_zpow₀ one_le_two (by decide)
  have hbound := Rank.nearest_lt_rankBound ((rest_le_one nanos).trans hone)
  refine ⟨hnonneg, ?_⟩
  show Rank.value (restOf nanos).rank = _
  rw [show (restOf nanos).rank = _ from hrank, Nat.min_eq_left hbound.le]

/-- A span in seconds is not negative, and the rounded sum of its parts. -/
theorem secondsOf_spec (nanos : ℕ) :
    (secondsOf nanos).Nonneg
      ∧ (secondsOf nanos).rank
        = min (Rank.nearest ((ofNat (nanos / nanosPerSecond)).magnitude
            + (restOf nanos).magnitude)) rankBound :=
  (nonneg_ofNat _).add (restOf_spec nanos).1

theorem nonneg_secondsOf (nanos : ℕ) : (secondsOf nanos).Nonneg :=
  (secondsOf_spec nanos).1

theorem isNegative_secondsOf (nanos : ℕ) : (secondsOf nanos).isNegative = false := by
  have hwhole : (ofNat (nanos / nanosPerSecond)).isNegative = false :=
    isNegative_ofRat (Nat.cast_nonneg _)
  exact (nonneg_ofNat _).isNegative_add (restOf_spec nanos).1 (Or.inl hwhole)

-- ============================================================= the error

/-- Natural numbers that do not overflow are off by a share of 2^-53. -/
theorem ofNat_error {n : ℕ} (hfin : (ofNat n).isFinite = true) :
    |(ofNat n).magnitude - n| ≤ n * 2 ^ (-53 : ℤ) := by
  rw [magnitude_of_finite hfin (rank_ofNat n)]
  refine Rank.nearest_error_of_normal ?_
  rcases Nat.eq_zero_or_pos n with hzero | hpos
  · left
    exact_mod_cast hzero
  · right
    have hone : (1 : ℚ) ≤ n := by exact_mod_cast hpos
    exact (zpow_le_one_of_nonpos₀ one_le_two (by decide)).trans hone

theorem isFinite_wholeOf (hlong : nanos ≤ longestNanos) :
    (ofNat (nanos / nanosPerSecond)).isFinite = true := by
  have hword : nanos / nanosPerSecond < wordBound := by
    unfold nanosPerSecond wordBound
    unfold longestNanos at hlong
    omega
  refine isFinite_of_rank (nonneg_ofNat _) ?_
  rw [rank_ofNat]
  refine lt_of_le_of_lt (Nat.min_le_left ..) (Rank.nearest_lt_rankBound ?_)
  refine le_trans (b := (wordBound : ℚ)) (by exact_mod_cast hword.le) ?_
  refine le_trans (b := (2 : ℚ) ^ (64 : ℤ)) (by norm_num [wordBound]) ?_
  exact zpow_le_zpow_right₀ one_le_two (by decide)

/-- If the seconds do not overflow, neither do the whole ones. -/
theorem isFinite_wholeOf_of_secondsOf (hfin : (secondsOf nanos).isFinite = true) :
    (ofNat (nanos / nanosPerSecond)).isFinite = true := by
  have hrank := rank_lt_of_isFinite hfin
  have hle : (ofNat (nanos / nanosPerSecond)).rank
      ≤ Rank.nearest ((ofNat (nanos / nanosPerSecond)).magnitude
        + (restOf nanos).magnitude) :=
    Rank.le_nearest (le_add_of_nonneg_right (magnitude_nonneg _))
  rw [(secondsOf_spec nanos).2] at hrank
  exact isFinite_of_rank (nonneg_ofNat _) (by omega)

theorem normal_le_nano : (2 : ℚ) ^ (-1022 : ℤ) ≤ 1 / (2 * nanosPerSecond) := by
  refine le_trans (b := (2 : ℚ) ^ (-40 : ℤ))
    (zpow_le_zpow_right₀ one_le_two (by decide)) ?_
  norm_num [nanosPerSecond]

theorem restOf_error (nanos : ℕ) :
    |(restOf nanos).magnitude
        - ((nanos % nanosPerSecond : ℕ) : ℚ) / nanosPerSecond|
      ≤ ((nanos % nanosPerSecond : ℕ) : ℚ) / nanosPerSecond * 2 ^ (-53 : ℤ) := by
  rw [(restOf_spec nanos).2]
  refine Rank.nearest_error_of_normal ?_
  rcases Nat.eq_zero_or_pos (nanos % nanosPerSecond) with hzero | hpos
  · left
    rw [hzero, Nat.cast_zero, zero_div]
  · right
    have hone : (1 : ℚ) ≤ (nanos % nanosPerSecond : ℕ) := by exact_mod_cast hpos
    refine normal_le_nano.trans (div_le_div₀ (by positivity) hone ?_ ?_) <;>
      norm_num [nanosPerSecond]

/-- The rest is a whole number of nanoseconds, so it stays below a second when it is
rounded. -/
theorem restOf_lt_one (nanos : ℕ) : (restOf nanos).magnitude < 1 := by
  have hrest : ((nanos % nanosPerSecond : ℕ) : ℚ) ≤ 999999999 := by
    exact_mod_cast Nat.le_of_lt_succ (Nat.mod_lt nanos (by decide))
  have hbelow : ((nanos % nanosPerSecond : ℕ) : ℚ) / nanosPerSecond
      ≤ (1073741823 : ℕ) * 2 ^ (-30 : ℤ) := by
    rw [div_le_iff₀ (by norm_num [nanosPerSecond])]
    refine hrest.trans ?_
    norm_num [nanosPerSecond]
  have hgrid := Rank.value_nearest_of_grid (m := 1073741823) (e := -30)
    (by decide) (by decide)
  rw [(restOf_spec nanos).2]
  refine (Rank.value_le_value.mpr (Rank.nearest_mono hbelow)).trans_lt ?_
  rw [hgrid]
  norm_num

theorem restOf_le_one (nanos : ℕ) : (restOf nanos).magnitude ≤ 1 :=
  (restOf_lt_one nanos).le

/-- The parts together are off by a share of 2^-53. -/
theorem parts_error (hfin : (ofNat (nanos / nanosPerSecond)).isFinite = true) :
    |(ofNat (nanos / nanosPerSecond)).magnitude + (restOf nanos).magnitude
        - seconds nanos|
      ≤ seconds nanos * 2 ^ (-53 : ℤ) := by
  have hwhole := ofNat_error hfin
  have hrest := restOf_error nanos
  rw [seconds_split, add_mul, add_sub_add_comm]
  exact (abs_add_le _ _).trans (add_le_add hwhole hrest)

theorem parts_le (hlong : nanos ≤ longestNanos) :
    (ofNat (nanos / nanosPerSecond)).magnitude + (restOf nanos).magnitude
      ≤ 2 ^ (1023 : ℤ) := by
  have herr := (abs_le.mp (parts_error (isFinite_wholeOf hlong))).2
  have hsec : seconds nanos ≤ 2 ^ (64 : ℤ) := by
    have hcast : (nanos : ℚ) ≤ longestNanos := by exact_mod_cast hlong
    unfold seconds
    rw [div_le_iff₀ (by norm_num [nanosPerSecond])]
    exact hcast.trans (by norm_num [longestNanos, nanosPerSecond])
  refine le_trans (b := (2 : ℚ) ^ (65 : ℤ)) ?_
    (zpow_le_zpow_right₀ one_le_two (by decide))
  norm_num at herr hsec ⊢
  linarith

theorem isFinite_secondsOf (hlong : nanos ≤ longestNanos) :
    (secondsOf nanos).isFinite = true := by
  obtain ⟨hnonneg, hrank⟩ := secondsOf_spec nanos
  refine isFinite_of_rank hnonneg ?_
  rw [hrank]
  exact lt_of_le_of_lt (Nat.min_le_left ..)
    (Rank.nearest_lt_rankBound (parts_le hlong))

/-- Seconds that do not overflow are one rounding of the sum of the parts. -/
theorem magnitude_secondsOf (hfin : (secondsOf nanos).isFinite = true) :
    (secondsOf nanos).magnitude
      = Rank.value (Rank.nearest ((ofNat (nanos / nanosPerSecond)).magnitude
          + (restOf nanos).magnitude)) :=
  magnitude_of_finite hfin (secondsOf_spec nanos).2

/-- The sum of the parts vanishes only with the span. -/
theorem parts_normal (hfin : (ofNat (nanos / nanosPerSecond)).isFinite = true) :
    (ofNat (nanos / nanosPerSecond)).magnitude + (restOf nanos).magnitude = 0
      ∨ 2 ^ (-1022 : ℤ)
        ≤ (ofNat (nanos / nanosPerSecond)).magnitude + (restOf nanos).magnitude := by
  have hparts := parts_error hfin
  rcases Nat.eq_zero_or_pos nanos with hzero | hnanos
  · left
    have hsec : seconds nanos = 0 := by rw [hzero]; simp [seconds]
    rw [hsec, zero_mul, sub_zero] at hparts
    exact abs_nonpos_iff.mp hparts
  · right
    have hone : (1 : ℚ) ≤ nanos := by exact_mod_cast hnanos
    have hsec : 1 / (nanosPerSecond : ℚ) ≤ seconds nanos := by
      unfold seconds
      gcongr
    have hlow := (abs_le.mp hparts).1
    refine normal_le_nano.trans ?_
    norm_num [nanosPerSecond] at hsec hlow ⊢
    linarith

/-- The seconds in binary64 are off by a share of less than three units of
2^-53: one for the parts, one for their sum. -/
theorem secondsOf_error (hfin : (secondsOf nanos).isFinite = true) :
    |(secondsOf nanos).magnitude - seconds nanos|
      ≤ seconds nanos * (3 * 2 ^ (-53 : ℤ)) := by
  have hwhole := isFinite_wholeOf_of_secondsOf hfin
  have hparts := parts_error hwhole
  have hround := Rank.nearest_error_of_normal (parts_normal hwhole)
  have hpos := seconds_nonneg nanos
  rw [magnitude_secondsOf hfin]
  rw [abs_le] at *
  norm_num at *
  constructor <;> linarith

/-- If the whole seconds are exact, only the rest and the sum are rounded. -/
theorem exact_parts_error (hexact : nanos / nanosPerSecond < 2 * binade) :
    |(ofNat (nanos / nanosPerSecond)).magnitude + (restOf nanos).magnitude
        - seconds nanos| ≤ 2 ^ (-54 : ℤ) := by
  have hrest := Rank.nearest_error_of_le (e := 0) (by positivity) (rest_le_one nanos)
    (by decide)
  rw [magnitude_ofNat hexact, (restOf_spec nanos).2, seconds_split,
    add_sub_add_left_eq_sub]
  exact hrest

/-- Seconds with a whole part that is exact lose a share of 2^-53 in one
rounding. -/
theorem le_magnitude_secondsOf (hlong : nanos ≤ longestNanos)
    (hexact : nanos / nanosPerSecond < 2 * binade) :
    (seconds nanos - 2 ^ (-54 : ℤ)) * (1 - 2 ^ (-53 : ℤ))
      ≤ (secondsOf nanos).magnitude := by
  have hround := (abs_le.mp
    (Rank.nearest_error_of_normal (parts_normal (isFinite_wholeOf hlong)))).1
  have hparts := (abs_le.mp (exact_parts_error hexact)).1
  rw [magnitude_secondsOf (isFinite_secondsOf hlong)]
  norm_num at hround hparts ⊢
  linarith

/-- Fewer than `2 ^ e` seconds are off by half a spacing of the numbers below
`2 ^ e`, and a little for the rest. -/
theorem secondsOf_error_of_short {e : ℕ} (hlong : nanos ≤ longestNanos)
    (hshort : nanos / nanosPerSecond < 2 ^ e) (he : e ≤ 53) :
    |(secondsOf nanos).magnitude - seconds nanos|
      ≤ 2 ^ (e - 54 : ℤ) + 2 ^ (-54 : ℤ) := by
  have hexact : nanos / nanosPerSecond < 2 * binade :=
    hshort.trans_le (Nat.pow_le_pow_right two_pos he)
  have hparts := exact_parts_error hexact
  have hsum : (ofNat (nanos / nanosPerSecond)).magnitude + (restOf nanos).magnitude
      ≤ 2 ^ (e : ℤ) := by
    have hwhole : ((nanos / nanosPerSecond : ℕ) : ℚ) + 1 ≤ 2 ^ e := by
      exact_mod_cast hshort
    rw [magnitude_ofNat hexact, zpow_natCast]
    exact (add_le_add_right (restOf_le_one nanos) _).trans hwhole
  have hround := Rank.nearest_error_of_le
    (add_nonneg (magnitude_nonneg _) (magnitude_nonneg _)) hsum (by unfold minExponent; omega)
  rw [magnitude_secondsOf (isFinite_secondsOf hlong)]
  exact (abs_sub_le _ _ _).trans (add_le_add hround hparts)

-- ============================================================= the order

theorem restOf_mono {early late : ℕ}
    (hle : early % nanosPerSecond ≤ late % nanosPerSecond) :
    (restOf early).magnitude ≤ (restOf late).magnitude := by
  rw [(restOf_spec early).2, (restOf_spec late).2]
  refine Rank.value_le_value.mpr (Rank.nearest_mono ?_)
  have hcast : ((early % nanosPerSecond : ℕ) : ℚ) ≤ (late % nanosPerSecond : ℕ) := by
    exact_mod_cast hle
  exact div_le_div_of_nonneg_right hcast (by positivity)

/-- From 2^53 seconds on the numbers are two apart, and the rest is rounded away. -/
theorem rank_secondsOf_of_coarse (hcoarse : 2 * binade ≤ nanos / nanosPerSecond) :
    (secondsOf nanos).rank = (ofNat (nanos / nanosPerSecond)).rank := by
  have hlarge : (2 * binade : ℚ) ≤ (ofNat (nanos / nanosPerSecond)).magnitude := by
    have hgrid := Rank.value_nearest_of_grid (m := binade) (e := 1) (by decide) (by decide)
    have hcast : (binade : ℚ) * 2 ^ (1 : ℤ) ≤ (nanos / nanosPerSecond : ℕ) := by
      rw [zpow_one, mul_comm]
      exact_mod_cast hcoarse
    have hbound : (binade : ℚ) * 2 ^ (1 : ℤ) ≤ 2 ^ (1024 : ℤ) := by
      rw [Rank.binade_eq, ← zpow_add₀ two_ne_zero]
      exact zpow_le_zpow_right₀ one_le_two (by decide)
    rw [magnitude_of_rank (rank_ofNat _), mul_comm, ← zpow_one (2 : ℚ)]
    refine le_min ?_ hbound
    rw [← hgrid]
    exact Rank.value_le_value.mpr (Rank.nearest_mono hcast)
  have hhalf : (restOf nanos).magnitude
      < 2 ^ Rank.exponent (ofNat (nanos / nanosPerSecond)).rank / 2 := by
    have hpow : (2 : ℚ) ^ (1 : ℤ) ≤ 2 ^ Rank.exponent (ofNat (nanos / nanosPerSecond)).rank :=
      zpow_le_zpow_right₀ one_le_two (Rank.one_le_exponent hlarge)
    have hrest := restOf_lt_one nanos
    rw [zpow_one] at hpow
    linarith
  rw [(secondsOf_spec nanos).2, show (ofNat (nanos / nanosPerSecond)).magnitude = Rank.value _
    from rfl, Rank.nearest_add_of_lt_half (magnitude_nonneg _) hhalf]
  exact Nat.min_eq_left (rank_le_rankBound _)

/-- A span has no more seconds than the next full second has. -/
theorem rank_secondsOf_le_next {seconds : ℕ} (hnext : nanos / nanosPerSecond < seconds) :
    (secondsOf nanos).rank ≤ (ofNat seconds).rank := by
  rcases Nat.lt_or_ge (nanos / nanosPerSecond) (2 * binade) with hexact | hcoarse
  · have hsum : (ofNat (nanos / nanosPerSecond)).magnitude + (restOf nanos).magnitude
        ≤ seconds := by
      have hcast : ((nanos / nanosPerSecond : ℕ) : ℚ) + 1 ≤ seconds := by
        exact_mod_cast hnext
      rw [magnitude_ofNat hexact]
      exact (add_le_add_right (restOf_le_one nanos) _).trans hcast
    rw [(secondsOf_spec nanos).2, rank_ofNat]
    exact min_le_min (Rank.nearest_mono hsum) le_rfl
  · have hcast : ((nanos / nanosPerSecond : ℕ) : ℚ) ≤ seconds := by
      exact_mod_cast hnext.le
    rw [rank_secondsOf_of_coarse hcoarse, rank_ofNat, rank_ofNat]
    exact min_le_min (Rank.nearest_mono hcast) le_rfl

/-- A longer span has no fewer seconds. Within a second the rests decide; across a full
second the rest of the longer span does not matter. -/
theorem rank_secondsOf_mono {short long : ℕ} (hle : short ≤ long) :
    (secondsOf short).rank ≤ (secondsOf long).rank := by
  have hwhole : short / nanosPerSecond ≤ long / nanosPerSecond :=
    Nat.div_le_div_right hle
  rcases hwhole.eq_or_lt with hsame | hless
  · rw [(secondsOf_spec short).2, (secondsOf_spec long).2, hsame]
    refine min_le_min (Rank.nearest_mono (add_le_add le_rfl (restOf_mono ?_))) le_rfl
    unfold nanosPerSecond at *
    omega
  · refine (rank_secondsOf_le_next hless).trans ?_
    rw [(secondsOf_spec long).2]
    refine le_min (Rank.le_nearest ?_) (rank_le_rankBound _)
    exact le_add_of_nonneg_right (magnitude_nonneg _)

-- ======================================================== exact seconds

/-- A span that is a multiple of a power of two of a second, not too fine and
not too long, is exact in binary64: so are its whole seconds, hence the
rest. -/
theorem magnitude_secondsOf_of_grid {e : ℤ} (hgrid : OnGrid e (seconds nanos))
    (hfine : -52 ≤ e) (hcoarse : e ≤ 0)
    (hshort : seconds nanos < 2 * binade * 2 ^ e) :
    (secondsOf nanos).magnitude = seconds nanos := by
  have hsplit := seconds_split nanos
  have hle : ((nanos / nanosPerSecond : ℕ) : ℚ) ≤ seconds nanos := by
    rw [hsplit]
    exact le_add_of_nonneg_right (by positivity)
  have hmin : minExponent ≤ e := le_trans (by decide) hfine
  have hunit : (2 : ℚ) ^ e ≤ 1 := zpow_le_one_of_nonpos₀ one_le_two hcoarse
  have hroom : (1 : ℚ) < 2 * binade * 2 ^ e := by
    calc (1 : ℚ) < 2 * binade * 2 ^ (-52 : ℤ) := by norm_num [binade]
      _ ≤ 2 * binade * 2 ^ e := by
          gcongr
          exact one_le_two
  have hwhole : nanos / nanosPerSecond < 2 * binade := by
    have hcast : ((nanos / nanosPerSecond : ℕ) : ℚ) < 2 * binade :=
      (hle.trans_lt hshort).trans_le (mul_le_of_le_one_right (by positivity) hunit)
    exact_mod_cast hcast
  have hrest : OnGrid e (((nanos % nanosPerSecond : ℕ) : ℚ) / nanosPerSecond) := by
    have hdiff := hgrid.sub (onGrid_natCast (nanos / nanosPerSecond) hcoarse) hle
    rwa [hsplit, add_sub_cancel_left] at hdiff
  have hvalue := hrest.value_nearest hmin ((rest_le_one nanos).trans_lt hroom)
  have hsum := hgrid.value_nearest hmin hshort
  have hbound : Rank.nearest (seconds nanos) < rankBound := by
    refine Rank.nearest_lt_rankBound (hshort.le.trans ?_)
    refine (mul_le_of_le_one_right (by positivity) hunit).trans ?_
    refine le_trans (b := (2 : ℚ) ^ (53 : ℤ)) (by norm_num [binade]) ?_
    exact zpow_le_zpow_right₀ one_le_two (by decide)
  unfold magnitude
  rw [(secondsOf_spec nanos).2, magnitude_ofNat hwhole, (restOf_spec nanos).2, hvalue,
    ← hsplit, Nat.min_eq_left hbound.le, hsum]

end Turnstile
