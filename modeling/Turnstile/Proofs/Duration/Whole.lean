/-
A whole number of nanoseconds up to 2^53 is read as it is.

Every number up to 2^53 is a number of binary64, so none of the roundings on
the way changes anything (`exact_natCast`): not reading it, not scaling it by
one, not adding it to nothing, and not rounding it to an integer.

Chain (duration): Duration/Total.lean and Text/Digits.lean below;
Settings/RoundTrip.lean above.
-/
import Mathlib
import Turnstile.Proofs.Duration.Total
import Turnstile.Proofs.Text.Digits

namespace Turnstile

namespace Text

/-- There is nothing to trim where no blank stands at either end. -/
theorem trim_of_stops {cs : List Char} (hstart : Stops isBlank cs)
    (hend : Stops isBlank cs.reverse) : trim cs = cs := by
  unfold trim trimEnd trimStart
  rw [hstart.dropWhile, hend.dropWhile, List.reverse_reverse]

end Text

namespace Duration

open Binary64
open Text (decimalDigits Stops isBlank)

variable {n : ℕ}

-- ============================================================== no rounding

/-- The number and what is rounded to it. -/
structure Exactly (x : Binary64) (n : ℕ) : Prop where
  nonneg : x.Nonneg
  finite : x.isFinite = true
  magnitude : x.magnitude = n

theorem natCast_le (hn : n ≤ 9007199254740992) : (n : ℚ) ≤ 2 ^ (1023 : ℤ) := by
  have hcast : (n : ℚ) ≤ 2 ^ (53 : ℤ) := by
    norm_num
    exact_mod_cast hn
  exact hcast.trans (zpow_le_zpow_right₀ one_le_two (by omega))

theorem exact_natCast (hn : n ≤ 9007199254740992) :
    Rank.value (Rank.nearest (n : ℚ)) = n := by
  by_cases hlast : n = 9007199254740992
  · have hgrid := Rank.value_nearest_of_grid (m := 4503599627370496) (e := 1)
      (by simp [binade]) (by simp [minExponent])
    subst hlast
    norm_num at hgrid ⊢
    exact hgrid
  · exact Rank.value_nearest_natCast (show n < 2 * binade by unfold binade; omega)

theorem exactly_of_rank {x : Binary64} (hn : n ≤ 9007199254740992) (hx : x.Nonneg)
    (hrank : x.rank = min (Rank.nearest (n : ℚ)) rankBound) : Exactly x n := by
  have hlt := Rank.nearest_lt_rankBound (natCast_le hn)
  rw [Nat.min_eq_left hlt.le] at hrank
  refine ⟨hx, isFinite_of_rank hx (hrank ▸ hlt), ?_⟩
  rw [Binary64.magnitude, hrank, exact_natCast hn]

theorem exactly_nanos (hn : n ≤ 9007199254740992) :
    Exactly (Term.nanos ⟨⟨false, n, 0⟩, .nanosecond⟩) n := by
  have hread : Exactly (Decimal.toBinary64 ⟨false, n, 0⟩) n := by
    have hvalue : Decimal.toRat ⟨false, n, 0⟩ = n := by
      simp [Decimal.toRat, Decimal.magnitude]
    rw [Decimal.toBinary64_eq, hvalue]
    have hpos : (0 : ℚ) ≤ n := Nat.cast_nonneg n
    exact exactly_of_rank hn (nonneg_ofRat hpos) (rank_ofRat hpos)
  have hone : Exactly (.ofNat TimeUnit.nanosecond.nanos) 1 :=
    exactly_of_rank (by omega) (nonneg_ofNat 1) (rank_ofNat 1)
  obtain ⟨hscaled, hrank⟩ := hread.nonneg.mul hone.nonneg hread.finite hone.finite
  refine exactly_of_rank hn hscaled ?_
  rw [Term.nanos, hrank, hread.magnitude, hone.magnitude, Nat.cast_one, mul_one]

theorem total?_nanos (hn : n ≤ 9007199254740992) :
    total? [⟨⟨false, n, 0⟩, .nanosecond⟩] = some (ofNanos n) := by
  have hterm := exactly_nanos hn
  have hsum : Exactly (sumOf [⟨⟨false, n, 0⟩, .nanosecond⟩]) n := by
    obtain ⟨hadded, hrank⟩ := (nonneg_zero (s := false)).add hterm.nonneg
    refine exactly_of_rank hn hadded ?_
    have hzero : (Binary64.zero false).magnitude = 0 := Rank.value_zero
    rw [hzero, zero_add, hterm.magnitude] at hrank
    exact hrank
  refine total?_of_near hsum.nonneg ?_ (hn.trans_lt (by decide))
  rw [hsum.magnitude, sub_self, abs_zero]
  exact one_half_pos

-- ============================================================ as it is written

/-- A number of nanoseconds with its unit. -/
theorem parse?_nanos (hn : n ≤ 9007199254740992) :
    parse? (String.ofList (decimalDigits n ++ ['n', 's'])) = some (ofNanos n) := by
  have hdigits : ∀ c ∈ decimalDigits n, Text.isDigit c = true :=
    fun c hmem => Text.isDigit_of_mem_decimalDigits hmem
  have htrim : Text.trim (decimalDigits n ++ ['n', 's']) = decimalDigits n ++ ['n', 's'] := by
    refine Text.trim_of_stops ?_ ?_
    · obtain ⟨c, cs, hcs⟩ := List.exists_cons_of_ne_nil (Text.decimalDigits_ne_nil n)
      rw [hcs]
      exact Text.stops_cons.mpr
        (Text.not_isBlank_of_isDigit (hdigits c (hcs ▸ List.mem_cons_self ..)))
    · rw [List.reverse_append]
      exact Text.stops_cons.mpr rfl
  have hnumber := SpellsNumber.whole (Text.decimalDigits_ne_nil n) hdigits
  rw [Text.positional_decimalDigits] at hnumber
  have hterms : SpellsTerms (decimalDigits n ++ (['n', 's'] ++ []))
      [⟨⟨false, n, 0⟩, .nanosecond⟩] :=
    .cons hnumber (show ['n', 's'] ∈ TimeUnit.nanosecond.names from List.mem_cons_self ..) .nil
  have hspells : Spells (Text.trim (String.ofList (decimalDigits n ++ ['n', 's'])).toList)
      [⟨⟨false, n, 0⟩, .nanosecond⟩] := by
    rw [String.toList_ofList, htrim]
    exact .terms (by simp) hterms
  rw [parse?_of_spells hspells]
  exact total?_nanos hn

end Duration

end Turnstile
