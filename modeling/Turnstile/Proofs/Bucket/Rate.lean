/-
The interval of a rate, for every number that a rate may be.

A rate spaces its tokens (`Spaced`) if it is a positive number and its quotient,
the nanoseconds of a token, is below 2^64 in binary64. The fastest rate is below
2^1024, so the quotient never vanishes: it is a normal number and off by a share
of 2^-53 (`Spaced.rounded_error`). Rounded up it is a whole number of
nanoseconds that binary64 holds exactly (`Spaced.exists_whole`), and the interval
is that number or one more (`WholeNanos.nanos_eq`). So nothing is cut off on the
way to a duration, and nothing overflows. All other rates give the longest
duration (`tokenInterval_of_not_spaced`).

A faster rate has no larger quotient. If its whole nanoseconds are fewer, the
one that may be added makes up for it at most; and if they are as many, it is
added to the faster rate only if it is added to the slower one as well
(`nanos_antitone`).

Chain (bucket): Duration/Seconds.lean below; Bucket/Interval.lean above.
-/
import Mathlib
import Turnstile.Bucket
import Turnstile.Proofs.Duration.Seconds

namespace Turnstile

namespace Quota

open Binary64

variable {rate slow fast : Binary64} {nanos whole : ℕ}

-- ========================================================== the quotient

/-- The rate is a positive number, and in binary64 its tokens are less than
2^64 nanoseconds apart. -/
structure Spaced (rate : Binary64) : Prop where
  finite : rate.isFinite = true
  pos : 0 < rate
  short : .ofNat nanosPerSecond / rate < .ofNat wordBound

/-- The nanoseconds of a token, exactly. -/
def exactNanos (rate : Binary64) : ℚ :=
  nanosPerSecond / rate.magnitude

/-- The nanoseconds of a token as binary64 divides them. -/
def roundedNanos (rate : Binary64) : ℚ :=
  (ofNat nanosPerSecond / rate).magnitude

theorem quotient_spec (hfin : rate.isFinite = true) (hpos : 0 < rate) :
    (ofNat nanosPerSecond / rate).Nonneg
      ∧ (ofNat nanosPerSecond / rate).rank
        = min (Rank.nearest (exactNanos rate)) rankBound := by
  have hunit : (ofNat nanosPerSecond).magnitude = nanosPerSecond :=
    magnitude_ofNat (by decide)
  have hquot := (nonneg_ofNat nanosPerSecond).div (nonneg_of_pos hpos)
    (isFinite_ofNat (by decide)) hfin (rank_pos_of_pos hpos)
  rwa [hunit] at hquot

theorem magnitude_pos (hpos : 0 < rate) : 0 < rate.magnitude :=
  rank_pos_iff.mp (rank_pos_of_pos hpos)

/-- Even the largest rate leaves a normal number. -/
theorem normal_exactNanos (hfin : rate.isFinite = true) (hpos : 0 < rate) :
    2 ^ (-1022 : ℤ) ≤ exactNanos rate := by
  have hlt : rate.magnitude < 2 ^ (1024 : ℤ) := by
    rw [← Rank.value_rankBound]
    exact Rank.value_strictMono (rank_lt_of_isFinite hfin)
  unfold exactNanos
  rw [le_div_iff₀ (magnitude_pos hpos)]
  calc (2 : ℚ) ^ (-1022 : ℤ) * rate.magnitude
      ≤ 2 ^ (-1022 : ℤ) * 2 ^ (1024 : ℤ) := by gcongr
    _ = 2 ^ (2 : ℤ) := by
        rw [← zpow_add₀ two_ne_zero]
        rfl
    _ ≤ nanosPerSecond := by norm_num [nanosPerSecond]

theorem Spaced.exactNanos_pos (hrate : Spaced rate) : 0 < exactNanos rate :=
  lt_of_lt_of_le (by positivity) (normal_exactNanos hrate.finite hrate.pos)

theorem Spaced.quotient_finite (hrate : Spaced rate) :
    (ofNat nanosPerSecond / rate).isFinite = true := by
  obtain ⟨hquot, -⟩ := quotient_spec hrate.finite hrate.pos
  have hless := (hquot.lt_iff (nonneg_ofNat wordBound)).mp hrate.short
  exact isFinite_of_rank hquot (hless.trans_le (rank_le_rankBound _))

theorem Spaced.roundedNanos_lt (hrate : Spaced rate) : roundedNanos rate < wordBound := by
  obtain ⟨hquot, -⟩ := quotient_spec hrate.finite hrate.pos
  have hless := (hquot.lt_iff (nonneg_ofNat wordBound)).mp hrate.short
  rw [← magnitude_wordBound]
  exact Rank.value_strictMono hless

theorem Spaced.roundedNanos_eq (hrate : Spaced rate) :
    roundedNanos rate = Rank.value (Rank.nearest (exactNanos rate)) :=
  magnitude_of_finite hrate.quotient_finite (quotient_spec hrate.finite hrate.pos).2

theorem Spaced.rounded_error (hrate : Spaced rate) :
    |roundedNanos rate - exactNanos rate| ≤ exactNanos rate * 2 ^ (-53 : ℤ) := by
  rw [hrate.roundedNanos_eq]
  exact Rank.nearest_error_of_normal (.inr (normal_exactNanos hrate.finite hrate.pos))

-- ================================================= the whole nanoseconds

/-- The quotient rounded up: a whole number less than one above it. -/
structure WholeNanos (rate : Binary64) (whole : ℕ) : Prop where
  nonneg : (intervalNanos rate).Nonneg
  finite : (intervalNanos rate).isFinite = true
  magnitude : (intervalNanos rate).magnitude = whole
  ge : roundedNanos rate ≤ whole
  lt : whole < roundedNanos rate + 1
  pos : 0 < whole
  lt_word : whole < wordBound

theorem Spaced.exists_whole (hrate : Spaced rate) : ∃ whole, WholeNanos rate whole := by
  obtain ⟨hquot, -⟩ := quotient_spec hrate.finite hrate.pos
  obtain ⟨whole, hceil, hceil_fin, hmag, hge, hlt⟩ :=
    hquot.ceil_exact hrate.quotient_finite
  have hword := hrate.roundedNanos_lt
  have herror := (abs_le.mp hrate.rounded_error).1
  have hexact := hrate.exactNanos_pos
  refine ⟨whole, hceil, hceil_fin, hmag, hge, hlt, ?_, ?_⟩
  · have hpos : (0 : ℚ) < whole := by
      refine lt_of_lt_of_le ?_ hge
      change 0 < roundedNanos rate
      norm_num at herror
      linarith
    exact_mod_cast hpos
  · -- the quotient is below 2^64 and a number of binary64, so rounding up
    -- cannot reach 2^64
    have hnear : |(ofNat nanosPerSecond / rate).magnitude - whole| < 1 :=
      abs_lt.mpr ⟨by linarith, by linarith⟩
    rcases eq_or_lt_of_near hnear with hsame | hsmall
    · have hcast : (whole : ℚ) < wordBound := hsame ▸ hword
      exact_mod_cast hcast
    · have hroom : (binade : ℚ) + 1 ≤ wordBound := by norm_num [binade, wordBound]
      have hcast : (whole : ℚ) < wordBound := by linarith
      exact_mod_cast hcast

/-- The whole nanoseconds, and one more if they fall short of a token. -/
theorem WholeNanos.nanos_eq (hwhole : WholeNanos rate whole) :
    (tokenInterval rate).nanos
      = if secondsOf whole * rate < 1 then whole + 1 else whole := by
  have hpos := hwhole.pos
  have hword := hwhole.lt_word
  have hzero : ¬intervalNanos rate ≤ 0 := by
    have hsome : (0 : ℚ) < whole := by exact_mod_cast hpos
    rw [zero_def, hwhole.nonneg.le_iff_magnitude nonneg_zero, hwhole.magnitude]
    exact not_le.mpr (Rank.value_zero.trans_lt hsome)
  have hbelow : ¬ofNat wordBound ≤ intervalNanos rate := by
    have hless : (whole : ℚ) < wordBound := by exact_mod_cast hword
    rw [(nonneg_ofNat wordBound).le_iff_magnitude hwhole.nonneg, hwhole.magnitude,
      magnitude_wordBound, not_le]
    exact hless
  have hsaturate : (intervalNanos rate).saturate (wordBound - 1) = whole := by
    rw [hwhole.nonneg.saturate hwhole.finite, hwhole.magnitude, ← Int.cast_natCast,
      Rat.floor_intCast, Int.toNat_natCast]
    exact Nat.min_eq_left (Nat.le_pred_of_lt hword)
  have hfits : whole + 1 ≤ longestNanos := hword.trans_le (by decide)
  unfold tokenInterval
  simp only [hwhole.finite, hzero, hbelow, hsaturate, Bool.not_true, decide_false,
    Bool.or_false, Bool.false_eq_true, if_false]
  split_ifs
  · exact Nat.min_eq_left hfits
  · exact Nat.min_eq_left (by omega)

theorem WholeNanos.nanos_bounds (hwhole : WholeNanos rate whole) :
    whole ≤ (tokenInterval rate).nanos ∧ (tokenInterval rate).nanos ≤ whole + 1 := by
  rw [hwhole.nanos_eq]
  split_ifs <;> omega

-- ================================================== rates that space nothing

theorem tokenInterval_eq_longest (hnone : (intervalNanos rate).isFinite = false
      ∨ intervalNanos rate ≤ 0 ∨ .ofNat wordBound ≤ intervalNanos rate) :
    tokenInterval rate = .longest := by
  unfold tokenInterval
  rcases hnone with h | h | h <;> simp [h]

/-- The interval of a rate that is zero is not finite, and that of a negative
rate is not positive. -/
theorem intervalNanos_of_nonpos (hfin : rate.isFinite = true) (hle : rate ≤ 0) :
    (intervalNanos rate).isFinite = false ∨ intervalNanos rate ≤ 0 := by
  cases rate with
  | nan => cases hfin
  | infinity negative => cases hfin
  | finite negative k =>
      obtain ⟨s, m, hunit, hvalue⟩ :=
        (nonneg_ofNat nanosPerSecond).eq_or.resolve_left (by decide +kernel)
      have hquot : ofNat nanosPerSecond / finite negative k
          = if k.val = 0 then if m.val = 0 then nan else infinity (s != negative)
            else ofRat (s != negative) (signed s m / signed negative k) := by
        rw [hunit]
        rfl
      unfold intervalNanos
      rw [hquot]
      split_ifs with hzero hunit_zero
      · exact .inl rfl
      · exact .inl rfl
      · right
        refine ceil_le_zero (ofRat_le_zero ?_)
        rw [hvalue]
        exact div_nonpos_of_nonneg_of_nonpos (magnitude_nonneg _) (signed_nonpos hle)

theorem not_spaced_iff : ¬Spaced rate ↔
    rate.isFinite = false ∨ rate ≤ 0
      ∨ .ofNat wordBound ≤ .ofNat nanosPerSecond / rate := by
  constructor
  · intro hrate
    by_contra hnone
    push Not at hnone
    obtain ⟨hfin, hpos, hlong⟩ := hnone
    rw [Ne, Bool.not_eq_false] at hfin
    have hpos := (not_le_iff (not_isNaN_of_isFinite hfin) rfl).mp hpos
    have hquot := (quotient_spec hfin hpos).1
    rw [not_le_iff (nonneg_ofNat wordBound).not_isNaN hquot.not_isNaN] at hlong
    exact hrate ⟨hfin, hpos, hlong⟩
  · rintro hnone ⟨hfin, hpos, hshort⟩
    have hquot := (quotient_spec hfin hpos).1
    rcases hnone with h | h | h
    · rw [h] at hfin
      cases hfin
    · exact absurd h ((not_le_iff (not_isNaN_of_isFinite hfin) rfl).mpr hpos)
    · exact absurd h ((not_le_iff (nonneg_ofNat wordBound).not_isNaN
        hquot.not_isNaN).mpr hshort)

theorem tokenInterval_of_not_spaced (hrate : ¬Spaced rate) :
    tokenInterval rate = .longest := by
  apply tokenInterval_eq_longest
  by_cases hfin : rate.isFinite = true
  case neg =>
    cases rate with
    | nan => exact .inl (by decide +kernel)
    | infinity negative => cases negative <;> exact .inr (.inl (by decide +kernel))
    | finite negative k => exact absurd rfl hfin
  by_cases hle : rate ≤ 0
  case pos => exact (intervalNanos_of_nonpos hfin hle).imp_right .inl
  have hpos := (not_le_iff (not_isNaN_of_isFinite hfin) rfl).mp hle
  have hquot := (quotient_spec hfin hpos).1
  have hlong : ofNat wordBound ≤ ofNat nanosPerSecond / rate := by
    rcases not_spaced_iff.mp hrate with hnot | hnot | hlong
    · exact absurd hfin (Bool.not_eq_true _ ▸ hnot)
    · exact absurd hnot hle
    · exact hlong
  rcases hquot.eq_or with hinf | ⟨s, k, hnum, -⟩
  · left
    unfold intervalNanos
    rw [hinf]
    rfl
  · have hquot_fin : (ofNat nanosPerSecond / rate).isFinite = true := hnum ▸ rfl
    obtain ⟨whole, hceil, -, hmag, hge, -⟩ := hquot.ceil_exact hquot_fin
    right; right
    unfold intervalNanos
    rw [(nonneg_ofNat _).le_iff_magnitude hquot] at hlong
    rw [(nonneg_ofNat _).le_iff_magnitude hceil, hmag]
    exact hlong.trans hge

theorem tokenInterval_eq_longest_iff :
    tokenInterval rate = .longest ↔ ¬Spaced rate := by
  refine ⟨fun hlongest hrate => ?_, tokenInterval_of_not_spaced⟩
  obtain ⟨whole, hwhole⟩ := hrate.exists_whole
  have hnanos := hwhole.nanos_bounds.2
  have hword := hwhole.lt_word
  have hfits : wordBound < longestNanos := by decide
  rw [hlongest] at hnanos
  change longestNanos ≤ whole + 1 at hnanos
  omega

theorem spaced_of_ne_longest (hsome : tokenInterval rate ≠ .longest) : Spaced rate :=
  not_not.mp (mt tokenInterval_eq_longest_iff.mpr hsome)

theorem nanos_le_of_ne_longest (hsome : tokenInterval rate ≠ .longest) :
    (tokenInterval rate).nanos ≤ wordBound := by
  obtain ⟨whole, hwhole⟩ := (spaced_of_ne_longest hsome).exists_whole
  exact hwhole.nanos_bounds.2.trans hwhole.lt_word

-- ================================================================= order

theorem Spaced.exactNanos_antitone (hslow : Spaced slow) (hfast : Spaced fast)
    (hle : slow ≤ fast) : exactNanos fast ≤ exactNanos slow := by
  have hmag := ((nonneg_of_pos hslow.pos).le_iff_magnitude (nonneg_of_pos hfast.pos)).mp hle
  exact div_le_div_of_nonneg_left (Nat.cast_nonneg _) (magnitude_pos hslow.pos) hmag

theorem Spaced.roundedNanos_antitone (hslow : Spaced slow) (hfast : Spaced fast)
    (hle : slow ≤ fast) : roundedNanos fast ≤ roundedNanos slow := by
  rw [hslow.roundedNanos_eq, hfast.roundedNanos_eq, Rank.value_le_value]
  exact Rank.nearest_mono (hslow.exactNanos_antitone hfast hle)

theorem credit_spec (hrate : Spaced rate) (hlong : nanos ≤ longestNanos) :
    (secondsOf nanos * rate).Nonneg
      ∧ (secondsOf nanos * rate).rank
        = min (Rank.nearest ((secondsOf nanos).magnitude * rate.magnitude)) rankBound :=
  (nonneg_secondsOf nanos).mul (nonneg_of_pos hrate.pos) (isFinite_secondsOf hlong)
    hrate.finite

/-- What falls short of a token at a faster rate does so at a slower one. -/
theorem credit_lt_one_of_le (hnanos : nanos ≤ longestNanos)
    (hslow : Spaced slow) (hfast : Spaced fast) (hle : slow ≤ fast)
    (hless : secondsOf nanos * fast < 1) : secondsOf nanos * slow < 1 := by
  have hmag := ((nonneg_of_pos hslow.pos).le_iff_magnitude (nonneg_of_pos hfast.pos)).mp hle
  obtain ⟨hcredit_slow, hrank_slow⟩ := credit_spec hslow hnanos
  obtain ⟨hcredit_fast, hrank_fast⟩ := credit_spec hfast hnanos
  have hone : (1 : Binary64).Nonneg := nonneg_ofNat 1
  rw [hcredit_fast.lt_iff hone, hrank_fast] at hless
  rw [hcredit_slow.lt_iff hone, hrank_slow]
  refine lt_of_le_of_lt (min_le_min_right _ (Rank.nearest_mono ?_)) hless
  exact mul_le_mul_of_nonneg_left hmag (magnitude_nonneg _)

theorem nanos_antitone (hslow : Spaced slow) (hfast : Spaced fast) (hle : slow ≤ fast) :
    (tokenInterval fast).nanos ≤ (tokenInterval slow).nanos := by
  obtain ⟨many, hmany⟩ := hslow.exists_whole
  obtain ⟨few, hfew⟩ := hfast.exists_whole
  have hwhole : few ≤ many := by
    have hrounded := hslow.roundedNanos_antitone hfast hle
    have hlt : (few : ℚ) < many + 1 := by linarith [hfew.lt, hmany.ge]
    have hnat : few < many + 1 := by exact_mod_cast hlt
    omega
  rcases hwhole.lt_or_eq with hless | rfl
  · have hlow := hmany.nanos_bounds.1
    have hhigh := hfew.nanos_bounds.2
    omega
  · -- as many whole nanoseconds: the faster rate is short of a token only if
    -- the slower one is
    have hfits : few ≤ longestNanos := hfew.lt_word.le.trans (by decide)
    rw [hfew.nanos_eq, hmany.nanos_eq]
    split_ifs with hshort hslow_short
    · exact le_rfl
    · exact absurd (credit_lt_one_of_le hfits hslow hfast hle hshort) hslow_short
    · omega
    · exact le_rfl

-- ============================================================ the interval

theorem Spaced.nanos_error (hrate : Spaced rate) :
    |((tokenInterval rate).nanos : ℚ) - exactNanos rate|
      ≤ 2 + exactNanos rate * 2 ^ (-53 : ℤ) := by
  obtain ⟨whole, hwhole⟩ := hrate.exists_whole
  obtain ⟨hlow, hhigh⟩ := hwhole.nanos_bounds
  obtain ⟨hbelow, habove⟩ := abs_le.mp hrate.rounded_error
  have hge := hwhole.ge
  have hlt := hwhole.lt
  have hlow_cast : (whole : ℚ) ≤ (tokenInterval rate).nanos := by exact_mod_cast hlow
  have hhigh_cast : ((tokenInterval rate).nanos : ℚ) ≤ whole + 1 := by
    exact_mod_cast hhigh
  exact abs_le.mpr ⟨by linarith, by linarith⟩

/-- Every number has an interval. It is the longest duration if the number is
not finite, not positive, or its quotient reaches 2^64. Otherwise the
interval is the quotient rounded up, below 2^64 and not cut off, or one
nanosecond more; it is positive and near the exact quotient; and a faster
rate has no longer one. -/
theorem tokenInterval_total :
    (∀ rate : Binary64, tokenInterval rate = .longest
      ↔ rate.isFinite = false ∨ rate ≤ 0
        ∨ .ofNat wordBound ≤ .ofNat nanosPerSecond / rate)
    ∧ (∀ rate : Binary64, tokenInterval rate ≠ .longest →
      ∃ (exact : ℚ) (whole : ℕ), rate.toRat? = some exact ∧ 0 < exact
        ∧ (intervalNanos rate).toRat? = some (whole : ℚ) ∧ whole < wordBound
        ∧ ((tokenInterval rate).nanos = whole ∨ (tokenInterval rate).nanos = whole + 1)
        ∧ 1 ≤ (tokenInterval rate).nanos
        ∧ |((tokenInterval rate).nanos : ℚ) - 10 ^ 9 / exact|
          ≤ 2 + 10 ^ 9 / exact * 2 ^ (-53 : ℤ))
    ∧ ∀ slow fast : Binary64, tokenInterval slow ≠ .longest →
      tokenInterval fast ≠ .longest → slow ≤ fast →
      (tokenInterval fast).nanos ≤ (tokenInterval slow).nanos := by
  refine ⟨fun rate => tokenInterval_eq_longest_iff.trans not_spaced_iff, ?_, ?_⟩
  · intro rate hsome
    have hrate := spaced_of_ne_longest hsome
    obtain ⟨whole, hwhole⟩ := hrate.exists_whole
    refine ⟨rate.magnitude, whole, ?_, magnitude_pos hrate.pos, ?_, hwhole.lt_word, ?_, ?_, ?_⟩
    · exact (nonneg_of_pos hrate.pos).toRat?_eq hrate.finite
    · rw [hwhole.nonneg.toRat?_eq hwhole.finite, hwhole.magnitude]
    · have hbounds := hwhole.nanos_bounds
      omega
    · exact hwhole.pos.trans_le hwhole.nanos_bounds.1
    · have herror := hrate.nanos_error
      unfold exactNanos at herror
      norm_num [nanosPerSecond] at herror ⊢
      exact herror
  · intro slow fast hslow hfast hle
    exact nanos_antitone (spaced_of_ne_longest hslow) (spaced_of_ne_longest hfast) hle

/-- A rate of zero has the longest interval, however it is signed, and so has the
smallest positive number. Seven tokens per second come in no longer intervals than
three, and the intervals of three are near a third of a second. -/
theorem tokenInterval_total_of_three_and_seven :
    tokenInterval (.zero true) = .longest
      ∧ tokenInterval (.finite false ⟨1, by decide⟩) = .longest
      ∧ (tokenInterval 7).nanos ≤ (tokenInterval 3).nanos
      ∧ |((tokenInterval 3).nanos : ℚ) - 10 ^ 9 / 3|
        ≤ 2 + 10 ^ 9 / 3 * 2 ^ (-53 : ℤ) := by
  obtain ⟨hlongest, hnear, hantitone⟩ := tokenInterval_total
  have hthree : tokenInterval 3 ≠ .longest := by decide +kernel
  have hseven : tokenInterval 7 ≠ .longest := by decide +kernel
  refine ⟨(hlongest _).mpr (.inr (.inl (by decide))),
    (hlongest _).mpr (.inr (.inr (by decide +kernel))),
    hantitone 3 7 hthree hseven (by decide +kernel), ?_⟩
  obtain ⟨exact, whole, hexact, -, -, -, -, -, herror⟩ := hnear 3 hthree
  have hvalue : (3 : Binary64).toRat? = some 3 := by decide +kernel
  rwa [Option.some.inj (hexact.symm.trans hvalue)] at herror

end Quota

end Turnstile
