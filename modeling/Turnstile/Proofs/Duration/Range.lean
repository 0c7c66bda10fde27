/-
What is refused as too long, and what is not.

The reader looks at the binary64 sum alone. Past 2^64 it refuses; a sum below
2^64 is read as the whole number next to it; and a sum of 2^64, which is one
more than a word holds, is read as the largest word (`total?_cases`). There is
nothing between 2^64 and the largest number below it, 2^64 - 2^11, so no other
sum is read as the largest word.

How long a text may be without being refused is a matter of how much the
roundings can take away. Each takes a share of 2^-53 at most, so the sum of n
terms has its exact total reduced by no more than n + 2 such shares, and a
fixed speck of dust for the smallest magnitudes: the dust on what is there is
reduced with it, which makes room for the dust of the next term
(`assured_snoc`). Of a total that is past 2^64 by more than that, the sum is
past 2^64 too (`lt_sum_of_long`).

Chain (duration): Duration/Total.lean below.
-/
import Mathlib
import Turnstile.Proofs.Duration.Total

namespace Turnstile.Duration

open Binary64

variable {t : Term} {ts : List Term} {q : ℚ}

-- ================================================== the sum from below

/-- What the smallest magnitudes may cost, for any number of terms. -/
def dust : ℚ := 2 ^ (-900 : ℤ)

/-- The least that the sum can come to. -/
def assured (ts : List Term) : ℚ :=
  exactTotal ts * (1 - 2 ^ (-53 : ℤ)) ^ (ts.length + 2) - dust

theorem le_value_nearest (hq : 0 ≤ q) :
    q * (1 - 2 ^ (-53 : ℤ)) - 2 ^ (-1075 : ℤ) ≤ Rank.value (Rank.nearest q) := by
  have herror := (abs_le.mp (Rank.nearest_error_add hq)).1
  linarith

theorem nonneg_amount (ht : t.amount.negative = false) : t.amount.toBinary64.Nonneg := by
  rw [Decimal.toBinary64_eq, Decimal.toRat, ht]
  exact nonneg_ofRat t.amount.magnitude_nonneg

theorem rank_amount (ht : t.amount.negative = false) :
    t.amount.toBinary64.rank = min (Rank.nearest t.amount.magnitude) rankBound := by
  rw [Decimal.toBinary64_eq, Decimal.toRat, ht]
  exact rank_ofRat t.amount.magnitude_nonneg

theorem rank_unit_pos (unit : TimeUnit) : 0 < (ofNat unit.nanos).rank := by
  refine rank_ofNat_pos ?_ (unit_lt unit)
  cases unit <;> decide

theorem nonneg_term (ht : t.amount.negative = false) : t.nanos.Nonneg :=
  (nonneg_amount ht).mul_of_pos (nonneg_ofNat _) (isFinite_ofNat (unit_lt t.unit))
    (rank_unit_pos t.unit)

theorem nonneg_sumOf (hts : Unsigned ts) : (sumOf ts).Nonneg := by
  induction ts using List.reverseRecOn with
  | nil => exact nonneg_zero
  | append_singleton ts t ih =>
      have hsum := ih fun other hother => hts other (by simp [hother])
      rw [sumOf_snoc]
      exact (hsum.add (nonneg_term (hts t (by simp)))).1

/-- A term loses two roundings and some noise, unless it is infinite. -/
theorem term_assured (ht : t.amount.negative = false) :
    t.exact * (1 - 2 ^ (-53 : ℤ)) ^ 2 - noise ≤ t.nanos.magnitude
      ∨ 2 ^ (1024 : ℤ) ≤ t.nanos.magnitude := by
  have hunit_fin := isFinite_ofNat (unit_lt t.unit)
  by_cases hlarge : rankBound ≤ t.amount.toBinary64.rank
  · right
    have hinf := (nonneg_amount ht).eq_infinity hlarge
    have hrank : t.nanos.rank = rankBound := by
      rw [Term.nanos, hinf]
      exact rank_infinity_mul (nonneg_ofNat _) hunit_fin (rank_unit_pos t.unit)
    rw [magnitude, hrank, Rank.value_rankBound]
  · have hfin := isFinite_of_rank (nonneg_amount ht) (not_le.mp hlarge)
    have hread : t.amount.toBinary64.magnitude
        = Rank.value (Rank.nearest t.amount.magnitude) :=
      magnitude_of_finite hfin (rank_amount ht)
    obtain ⟨-, hrank⟩ := (nonneg_amount ht).mul (nonneg_ofNat t.unit.nanos) hfin hunit_fin
    rw [magnitude_ofNat (unit_lt t.unit), hread] at hrank
    have hmag : t.nanos.magnitude = min (Rank.value (Rank.nearest
        (Rank.value (Rank.nearest t.amount.magnitude) * t.unit.nanos)))
        (2 ^ (1024 : ℤ)) := magnitude_of_rank hrank
    have hamount := le_value_nearest t.amount.magnitude_nonneg
    have hproduct := le_value_nearest (mul_nonneg
      (Rank.value_nonneg (Rank.nearest t.amount.magnitude)) (Nat.cast_nonneg t.unit.nanos))
    rcases min_choice (Rank.value (Rank.nearest
        (Rank.value (Rank.nearest t.amount.magnitude) * t.unit.nanos)))
        (2 ^ (1024 : ℤ)) with hleast | hleast
    · left
      obtain ⟨hunit, hunit'⟩ := unit_bounds t.unit
      have hscaled := mul_le_mul_of_nonneg_right hamount (lt_of_lt_of_le one_pos hunit).le
      have hnoise : (2 : ℚ) ^ (-1075 : ℤ) * 2 ^ (43 : ℤ) ≤ noise := by
        rw [← zpow_add₀ two_ne_zero]
        exact zpow_le_zpow_right₀ one_le_two (by decide)
      have htiny : (0 : ℚ) < 2 ^ (-1075 : ℤ) := by positivity
      rw [hmag, hleast, exact_eq ht]
      refine le_trans ?_ hproduct
      generalize (2 : ℚ) ^ (-1075 : ℤ) = tiny at *
      norm_num at hscaled hnoise ⊢
      nlinarith
    · right
      rw [hmag, hleast]

-- =============================================================== the sum

/-- A further term shrinks what is there by one rounding, dust and all, and the
dust that goes is more than the term leaves. -/
theorem assured_snoc (ht : t.amount.negative = false) (ts : List Term) :
    assured (ts ++ [t])
      ≤ (assured ts + (t.exact * (1 - 2 ^ (-53 : ℤ)) ^ 2 - noise)) * (1 - 2 ^ (-53 : ℤ))
        - 2 ^ (-1075 : ℤ) := by
  have hexact := exact_nonneg ht
  have hshrink : (1 - 2 ^ (-53 : ℤ) : ℚ) ^ (ts.length + 2) ≤ (1 - 2 ^ (-53 : ℤ)) ^ 2 :=
    pow_le_pow_of_le_one (by norm_num) (by norm_num) (by omega)
  have hterm := mul_le_mul_of_nonneg_left hshrink hexact
  have hdust : noise + 2 ^ (-1075 : ℤ) ≤ dust * 2 ^ (-53 : ℤ) := by
    have hsmall : (2 : ℚ) ^ (-1075 : ℤ) ≤ noise :=
      zpow_le_zpow_right₀ one_le_two (by decide)
    have htwice : noise + noise ≤ dust * 2 ^ (-53 : ℤ) := by
      unfold noise dust
      rw [← two_mul, ← zpow_one_add₀ two_ne_zero, ← zpow_add₀ two_ne_zero]
      exact zpow_le_zpow_right₀ one_le_two (by decide)
    linarith
  have hnoise := noise_pos
  unfold assured
  rw [exactTotal_snoc, List.length_append, List.length_singleton,
    show ts.length + 1 + 2 = ts.length + 2 + 1 by omega, pow_succ]
  generalize (1 - 2 ^ (-53 : ℤ) : ℚ) ^ (ts.length + 2) = shrink at *
  generalize (2 : ℚ) ^ (-1075 : ℤ) = tiny at *
  norm_num at hdust hterm ⊢
  nlinarith

theorem sum_assured (hts : Unsigned ts) :
    assured ts ≤ (sumOf ts).magnitude ∨ 2 ^ (1024 : ℤ) ≤ (sumOf ts).magnitude := by
  induction ts using List.reverseRecOn with
  | nil =>
      left
      have hdust : 0 ≤ dust := by
        unfold dust
        positivity
      refine le_trans ?_ (magnitude_nonneg _)
      simp [assured, exactTotal, hdust]
  | append_singleton ts t ih =>
      have ht : t.amount.negative = false := hts t (by simp)
      have hts' : Unsigned ts := fun other hother => hts other (by simp [hother])
      have hsum := nonneg_sumOf hts'
      have hadded := add_nonneg (magnitude_nonneg (sumOf ts)) (magnitude_nonneg t.nanos)
      have hmag : (sumOf (ts ++ [t])).magnitude = min (Rank.value (Rank.nearest
          ((sumOf ts).magnitude + t.nanos.magnitude))) (2 ^ (1024 : ℤ)) := by
        rw [sumOf_snoc]
        exact magnitude_of_rank (hsum.add (nonneg_term ht)).2
      rcases min_choice (Rank.value (Rank.nearest
          ((sumOf ts).magnitude + t.nanos.magnitude))) (2 ^ (1024 : ℤ)) with hleast | hleast
      · rw [hmag, hleast]
        -- an infinite part leaves nothing to round
        have hpast (hpart : 2 ^ (1024 : ℤ) ≤ (sumOf ts).magnitude + t.nanos.magnitude) :
            2 ^ (1024 : ℤ)
              ≤ Rank.value (Rank.nearest ((sumOf ts).magnitude + t.nanos.magnitude)) := by
          rw [← Rank.value_rankBound]
          exact Rank.value_le_value.mpr (Rank.rankBound_le_nearest hpart)
        rcases ih hts' with hsum' | hsum'
        · rcases term_assured ht with hterm' | hterm'
          · left
            refine le_trans (assured_snoc ht ts) (le_trans ?_ (le_value_nearest hadded))
            gcongr
          · exact Or.inr (hpast (le_add_of_nonneg_of_le (magnitude_nonneg _) hterm'))
        · exact Or.inr (hpast (le_add_of_le_of_nonneg hsum' (magnitude_nonneg _)))
      · right
        rw [hmag, hleast]

/-- A total that is past 2^64 by more than the roundings can take away has a sum
past 2^64. -/
theorem lt_sum_of_long (hts : Unsigned ts)
    (hlong : wordBound < exactTotal ts * (1 - 2 ^ (-53 : ℤ)) ^ (ts.length + 3)) :
    wordBound < (sumOf ts).magnitude := by
  have hword := wordBound_lt
  rcases sum_assured hts with hassured | hinf
  · refine lt_of_lt_of_le ?_ hassured
    have hdust : dust ≤ 1 := zpow_le_one_of_nonpos₀ one_le_two (by decide)
    unfold assured
    rw [show ts.length + 3 = ts.length + 2 + 1 by omega, pow_succ, ← mul_assoc] at hlong
    generalize exactTotal ts * (1 - 2 ^ (-53 : ℤ)) ^ (ts.length + 2) = rest at *
    norm_num [wordBound] at hlong ⊢
    linarith
  · exact lt_of_lt_of_le (by linarith) hinf

-- ============================================================= the total

/-- The largest word is between two numbers of binary64. -/
theorem magnitude_ne_largest (x : Binary64) : x.magnitude ≠ (wordBound - 1 : ℕ) := by
  intro hmag
  have hself : Rank.value (Rank.nearest x.magnitude) = x.magnitude :=
    congrArg Rank.value (Rank.nearest_value x.rank)
  have hround : Rank.value (Rank.nearest ((wordBound - 1 : ℕ) : ℚ)) = wordBound := by
    decide +kernel
  rw [hmag, hround] at hself
  norm_num [wordBound] at hself

/-- Past 2^64, at 2^64, and below. -/
theorem total?_cases (hts : Unsigned ts) :
    (wordBound < (sumOf ts).magnitude ∧ total? ts = none)
      ∨ ((sumOf ts).magnitude = wordBound ∧ total? ts = some (ofNanos (wordBound - 1)))
      ∨ ((sumOf ts).magnitude < wordBound ∧ ∃ n : ℕ, n + 1 < wordBound
        ∧ |(sumOf ts).magnitude - n| ≤ 1 / 2 ∧ total? ts = some (ofNanos n)) := by
  have hsum := nonneg_sumOf hts
  by_cases hfin : (sumOf ts).isFinite = true
  · obtain ⟨n, hlow, hhigh, htotal⟩ := total?_of_finite hsum hfin
    have hnear : |(sumOf ts).magnitude - n| ≤ 1 / 2 :=
      abs_le.mpr ⟨by linarith, by linarith⟩
    have hexact := eq_or_lt_of_near (hnear.trans_lt one_half_lt_one)
    have hsmall : (binade : ℚ) + 2 < wordBound := by norm_num [binade, wordBound]
    rcases lt_trichotomy (sumOf ts).magnitude wordBound with hless | hword | hmore
    · have hn : n + 1 < wordBound := by
        rcases hexact with hsame | hlt
        · have hbelow : n < wordBound := by
            rw [hsame] at hless
            exact_mod_cast hless
          have hne : n ≠ wordBound - 1 := by
            rintro rfl
            exact magnitude_ne_largest _ hsame
          omega
        · have hcast : ((n + 1 : ℕ) : ℚ) < wordBound := by
            push_cast
            linarith
          exact_mod_cast hcast
      rw [if_pos (by omega), Nat.min_eq_left (by omega)] at htotal
      exact Or.inr (Or.inr ⟨hless, n, hn, hnear, htotal⟩)
    · have hn : n = wordBound := by
        have hsame := hexact.resolve_right (by linarith)
        exact_mod_cast hsame.symm.trans hword
      rw [hn, if_pos le_rfl, Nat.min_eq_right (Nat.sub_le ..)] at htotal
      exact Or.inr (Or.inl ⟨hword, htotal⟩)
    · have hn : wordBound < n := by
        have hsame := hexact.resolve_right (by linarith)
        rw [hsame] at hmore
        exact_mod_cast hmore
      rw [if_neg (by omega)] at htotal
      exact Or.inl ⟨hmore, htotal⟩
  · have hrank : rankBound ≤ (sumOf ts).rank :=
      not_lt.mp fun hlt => hfin (isFinite_of_rank hsum hlt)
    have hmag : 2 ^ (1024 : ℤ) ≤ (sumOf ts).magnitude := by
      rw [← Rank.value_rankBound]
      exact Rank.value_le_value.mpr hrank
    refine Or.inl ⟨lt_of_lt_of_le (by linarith [wordBound_lt]) hmag, ?_⟩
    refine if_neg fun haccept => ?_
    have hround : (sumOf ts).round.isFinite = true := haccept.1
    rw [hsum.eq_infinity hrank] at hround
    cases hround

-- ============================================================= the grammar

/-- A text in the grammar is refused exactly if its sum is past 2^64, infinity
included, and read as the largest word exactly if its sum is 2^64; otherwise it
is read as the whole number next to the sum. So it is refused if its exact total
is past 2^64 by more than the roundings of its terms can take away. -/
theorem durationOf_range {text : String} (hspells : Spells (Text.trim text.toList) ts) :
    (Settings.durationOf text = .error (.invalidDuration text)
        ↔ wordBound < (sumOf ts).magnitude)
      ∧ (Settings.durationOf text = .ok (ofNanos (wordBound - 1))
        ↔ (sumOf ts).magnitude = wordBound)
      ∧ ((sumOf ts).magnitude < wordBound →
        ∃ n : ℕ, |(sumOf ts).magnitude - n| ≤ 1 / 2
          ∧ Settings.durationOf text = .ok (ofNanos n))
      ∧ (wordBound < exactTotal ts * (1 - 2 ^ (-53 : ℤ)) ^ (ts.length + 3) →
        Settings.durationOf text = .error (.invalidDuration text)) := by
  have hts := hspells.unsigned
  have hread : Settings.durationOf text
      = (total? ts).elim (.error (.invalidDuration text)) .ok := by
    rw [Settings.durationOf, parse?_of_spells hspells]
    cases total? ts <;> rfl
  have hrefused (hpast : wordBound < (sumOf ts).magnitude) :
      Settings.durationOf text = .error (.invalidDuration text) := by
    rcases total?_cases hts with ⟨-, htotal⟩ | ⟨hword, -⟩ | ⟨hless, -⟩
    · rw [hread, htotal, Option.elim_none]
    · exact absurd hpast hword.not_gt
    · exact absurd hpast hless.not_gt
  refine ⟨⟨?_, hrefused⟩, ⟨?_, ?_⟩, ?_, fun hlong => hrefused (lt_sum_of_long hts hlong)⟩
  · intro herror
    rcases total?_cases hts with ⟨hpast, -⟩ | ⟨-, htotal⟩ | ⟨-, n, -, -, htotal⟩
    · exact hpast
    all_goals
      rw [hread, htotal] at herror
      cases herror
  · intro hlargest
    rcases total?_cases hts with ⟨-, htotal⟩ | ⟨hword, -⟩ | ⟨-, n, hn, -, htotal⟩
    · rw [hread, htotal] at hlargest
      cases hlargest
    · exact hword
    · rw [hread, htotal] at hlargest
      have hnanos := congrArg Duration.nanos (Except.ok.inj hlargest)
      have hfits : wordBound ≤ longestNanos := by decide
      simp only [ofNanos] at hnanos
      omega
  · intro hword
    rcases total?_cases hts with ⟨hpast, -⟩ | ⟨-, htotal⟩ | ⟨hless, -⟩
    · exact absurd hword hpast.ne'
    · rw [hread, htotal, Option.elim_some]
    · exact absurd hword hless.ne
  · intro hless
    rcases total?_cases hts with ⟨hpast, -⟩ | ⟨hword, -⟩ | ⟨-, n, -, hnear, htotal⟩
    · exact absurd hless hpast.not_gt
    · exact absurd hword hless.ne
    · exact ⟨n, hnear, by rw [hread, htotal, Option.elim_some]⟩

/-- Two terms that come to 2^64 in binary64, and one that is past it. -/
theorem durationOf_range_of_edges :
    Settings.durationOf "18446744073s709551615ns" = .ok (ofNanos (wordBound - 1))
      ∧ Settings.durationOf "6000000h" = .error (.invalidDuration "6000000h") := by
  have hedge : terms? (Text.trim "18446744073s709551615ns".toList)
      = some [⟨⟨false, 18446744073, 0⟩, .second⟩, ⟨⟨false, 709551615, 0⟩, .nanosecond⟩] := by
    decide +kernel
  have hpast : terms? (Text.trim "6000000h".toList)
      = some [⟨⟨false, 6000000, 0⟩, .hour⟩] := by
    decide +kernel
  obtain ⟨-, hlargest, -, -⟩ :=
    durationOf_range (.terms (by simp) (terms?_eq_some_iff.mp hedge))
  obtain ⟨-, -, -, hrefused⟩ :=
    durationOf_range (.terms (by simp) (terms?_eq_some_iff.mp hpast))
  refine ⟨hlargest.mpr (by decide +kernel), hrefused ?_⟩
  norm_num [exactTotal, Term.exact, Decimal.toRat, Decimal.magnitude, TimeUnit.nanos,
    wordBound]

/-- A total of 2^64 nanoseconds is more than a word holds, and is read as one
nanosecond less. -/
theorem durationOf_clamps :
    let text := "18446744073709551616ns"
    ∃ ts, Spells (Text.trim text.toList) ts ∧ wordBound ≤ exactTotal ts
      ∧ Settings.durationOf text ≠ .error (.invalidDuration text)
      ∧ Settings.durationOf text = .ok (ofNanos (wordBound - 1)) := by
  intro text
  have hread : terms? (Text.trim text.toList)
      = some [⟨⟨false, 18446744073709551616, 0⟩, .nanosecond⟩] := by
    decide +kernel
  refine ⟨_, .terms (by simp) (terms?_eq_some_iff.mp hread), ?_, ?_, ?_⟩
  · norm_num [exactTotal, Term.exact, Decimal.toRat, Decimal.magnitude, TimeUnit.nanos,
      wordBound]
  all_goals decide +kernel

end Turnstile.Duration
