/-
The total of a duration in binary64 against its exact total.

A term is rounded as it is read and as it is scaled, a sum once more for each
term added. Every rounding is a share of 2^-53 of its result, or half the
smallest magnitude, and the latter is swallowed by a fixed amount of noise per
term. So the sum of n terms is within a factor of (1 + 2^-53) ^ (n + 2) of the
exact total with its noise (`allowance`, `sum_error`): a further term adds one
rounding to all that is there already, and its own two are not more than the
roundings that the first term has had.

What is read is the whole number of nanoseconds next to the sum
(`total?_of_finite`). With fewer than 2^32 terms and a total of at most 2^63
nanoseconds the sum stays below 2^64, which is where the reader would give up
(`total?_isSome_of_le`). The main statement puts this together with the
grammar (`durationOf_grammar`).

Chain (duration): Duration/Grammar.lean and Decimal/Nearest.lean below;
Duration/Precise.lean and Duration/Range.lean above.
-/
import Mathlib
import Turnstile.Proofs.Decimal.Nearest
import Turnstile.Proofs.Duration.Grammar
import Turnstile.Proofs.Duration.Seconds
import Turnstile.Settings.Fault

namespace Turnstile.Duration

open Binary64

variable {t : Term} {ts : List Term} {cs : List Char} {d : Decimal} {m : ℕ}

-- ================================================= exact and rounded sums

/-- The exact total. -/
def exactTotal (ts : List Term) : ℚ :=
  (ts.map Term.exact).sum

/-- The total as the reader adds it up. -/
def sumOf (ts : List Term) : Binary64 :=
  ts.foldl (fun sum (t : Term) => sum + t.nanos) (Binary64.zero false)

/-- What is allowed for the smallest magnitudes, for each term. -/
def noise : ℚ := 2 ^ (-1000 : ℤ)

/-- The most that the sum can come to. -/
def allowance (ts : List Term) : ℚ :=
  (exactTotal ts + ts.length * noise) * (1 + 2 ^ (-53 : ℤ)) ^ (ts.length + 2)

/-- Amounts have no sign. -/
def Unsigned (ts : List Term) : Prop :=
  ∀ t ∈ ts, t.amount.negative = false

theorem exactTotal_snoc (ts : List Term) (t : Term) :
    exactTotal (ts ++ [t]) = exactTotal ts + t.exact := by
  simp [exactTotal]

theorem sumOf_snoc (ts : List Term) (t : Term) :
    sumOf (ts ++ [t]) = sumOf ts + t.nanos := by
  simp [sumOf]

theorem SpellsNumber.unsigned (hnumber : SpellsNumber cs d) : d.negative = false := by
  cases hnumber <;> rfl

theorem SpellsTerms.unsigned (hterms : SpellsTerms cs ts) : Unsigned ts := by
  induction hterms with
  | nil => simp [Unsigned]
  | @cons number name rest t ts hnumber hname hrest ih =>
      intro other hother
      rcases List.mem_cons.mp hother with rfl | hother
      · exact hnumber.unsigned
      · exact ih other hother

theorem exact_nonneg (ht : t.amount.negative = false) : 0 ≤ t.exact := by
  have hmag := Decimal.magnitude_nonneg t.amount
  unfold Term.exact Decimal.toRat
  rw [ht]
  simp only [Bool.false_eq_true, if_false]
  positivity

theorem exactTotal_nonneg (hts : Unsigned ts) : 0 ≤ exactTotal ts := by
  refine List.sum_nonneg fun q hq => ?_
  obtain ⟨t, ht, rfl⟩ := List.mem_map.mp hq
  exact exact_nonneg (hts t ht)

-- ========================================================== one rounding

theorem noise_pos : 0 < noise := by
  unfold noise
  positivity

theorem one_le_growth (m : ℕ) : (1 : ℚ) ≤ (1 + 2 ^ (-53 : ℤ)) ^ m :=
  one_le_pow₀ (le_add_of_nonneg_right (by positivity))

/-- Compounded, the shares add up to little more than their sum. -/
theorem growth_le (hm : 3 * m ≤ 9007199254740992) :
    (1 + 2 ^ (-53 : ℤ)) ^ m ≤ (1 : ℚ) + 3 * m * 2 ^ (-54 : ℤ) := by
  induction m with
  | zero => simp
  | succ m ih =>
      have hprevious := ih (by omega)
      have hm' : (3 * m : ℚ) ≤ 9007199254740992 := by
        exact_mod_cast (show 3 * m ≤ 9007199254740992 by omega)
      rw [pow_succ]
      push_cast
      norm_num at hprevious ⊢
      nlinarith

-- ============================================================== one term

theorem unit_bounds (unit : TimeUnit) :
    1 ≤ (unit.nanos : ℚ) ∧ (unit.nanos : ℚ) ≤ 3600000000000 := by
  cases unit <;> norm_num [TimeUnit.nanos]

theorem unit_lt (unit : TimeUnit) : unit.nanos < 2 * binade := by
  cases unit <;> decide

theorem exact_eq (ht : t.amount.negative = false) :
    t.exact = t.amount.magnitude * t.unit.nanos := by
  simp [Term.exact, Decimal.toRat, ht]

/-- The product of the rounded amount with the unit, before it is rounded
itself. -/
theorem scaled_error (ht : t.amount.negative = false)
    (hle : t.amount.magnitude ≤ 2 ^ (1023 : ℤ)) :
    |t.amount.toBinary64.magnitude * t.unit.nanos - t.exact|
      ≤ t.exact * 2 ^ (-53 : ℤ) + 2 ^ (-1075 : ℤ) * 3600000000000 := by
  obtain ⟨hunit, hunit'⟩ := unit_bounds t.unit
  obtain ⟨-, -, herror⟩ := Decimal.toBinary64_error ht hle
  have htiny : (0 : ℚ) < 2 ^ (-1075 : ℤ) := by positivity
  rw [exact_eq ht, ← sub_mul, abs_mul, abs_of_pos (lt_of_lt_of_le one_pos hunit)]
  calc |t.amount.toBinary64.magnitude - t.amount.magnitude| * t.unit.nanos
      ≤ (t.amount.magnitude * 2 ^ (-53 : ℤ) + 2 ^ (-1075 : ℤ)) * t.unit.nanos :=
        mul_le_mul_of_nonneg_right herror (by linarith)
    _ = t.amount.magnitude * t.unit.nanos * 2 ^ (-53 : ℤ)
          + 2 ^ (-1075 : ℤ) * t.unit.nanos := by ring
    _ ≤ _ := by gcongr

/-- A term is rounded twice, and the noise has room for half the smallest
magnitude besides. -/
theorem term_error (ht : t.amount.negative = false)
    (hbound : (t.exact + noise) * (1 + 2 ^ (-53 : ℤ)) ^ 2 ≤ 2 ^ (1023 : ℤ)) :
    t.nanos.Nonneg
      ∧ |t.nanos.magnitude - t.exact|
        ≤ (t.exact + noise) * (1 + 2 ^ (-53 : ℤ)) ^ 2 - t.exact
          - 2 ^ (-1075 : ℤ) := by
  have hexact := exact_nonneg ht
  have hnoise : (2 : ℚ) ^ (-1075 : ℤ) * 2 ^ (43 : ℤ) ≤ noise := by
    rw [← zpow_add₀ two_ne_zero]
    exact zpow_le_zpow_right₀ one_le_two (by decide)
  have htiny : (0 : ℚ) < 2 ^ (-1075 : ℤ) := by positivity
  have hamount_le : t.amount.magnitude ≤ 2 ^ (1023 : ℤ) := by
    have hunit := (unit_bounds t.unit).1
    have hgrowth := one_le_growth 2
    have hamount := Decimal.magnitude_nonneg t.amount
    have hfactor : t.amount.magnitude ≤ t.exact := by
      rw [exact_eq ht]
      exact le_mul_of_one_le_right hamount hunit
    refine le_trans ?_ hbound
    nlinarith [noise_pos]
  obtain ⟨hread, hfinite, -⟩ := Decimal.toBinary64_error ht hamount_le
  obtain ⟨hscaled, hscaled'⟩ := abs_le.mp (scaled_error ht hamount_le)
  have hproduct_nonneg : 0 ≤ t.amount.toBinary64.magnitude * t.unit.nanos :=
    mul_nonneg (magnitude_nonneg _) (Nat.cast_nonneg _)
  have hproduct_le :
      t.amount.toBinary64.magnitude * t.unit.nanos ≤ 2 ^ (1023 : ℤ) := by
    refine le_trans ?_ hbound
    generalize (2 : ℚ) ^ (-1075 : ℤ) = tiny at *
    norm_num at hscaled' hnoise ⊢
    nlinarith
  obtain ⟨hnonneg, hrank⟩ := hread.mul (nonneg_ofNat t.unit.nanos) hfinite
    (isFinite_ofNat (unit_lt t.unit))
  have hvalue : t.nanos.magnitude = Rank.value (Rank.nearest
      (t.amount.toBinary64.magnitude * t.unit.nanos)) := by
    rw [magnitude_ofNat (unit_lt t.unit),
      Nat.min_eq_left (Rank.nearest_lt_rankBound hproduct_le).le] at hrank
    exact congrArg Rank.value hrank
  obtain ⟨hround, hround'⟩ := abs_le.mp (Rank.nearest_error_add hproduct_nonneg)
  refine ⟨hnonneg, abs_le.mpr ?_⟩
  rw [hvalue]
  generalize (2 : ℚ) ^ (-1075 : ℤ) = tiny at *
  norm_num at hscaled hscaled' hround hround' hnoise ⊢
  constructor <;> nlinarith

-- =============================================================== the sum

theorem allowance_nil : allowance [] = 0 := by
  simp [allowance, exactTotal]

theorem exactTotal_le_allowance (hts : Unsigned ts) : exactTotal ts ≤ allowance ts := by
  have hexact := exactTotal_nonneg hts
  have hgrowth := one_le_growth (ts.length + 2)
  have hnoise := mul_nonneg (Nat.cast_nonneg (α := ℚ) ts.length) noise_pos.le
  unfold allowance
  nlinarith

/-- A further term has two roundings of its own, and all that is there is
rounded once more. -/
theorem allowance_snoc (ht : t.amount.negative = false) (ts : List Term) :
    (allowance ts + (t.exact + noise) * (1 + 2 ^ (-53 : ℤ)) ^ 2) * (1 + 2 ^ (-53 : ℤ))
      ≤ allowance (ts ++ [t]) := by
  have hexact := exact_nonneg ht
  have hgrowth : (1 + 2 ^ (-53 : ℤ) : ℚ) ^ 2 ≤ (1 + 2 ^ (-53 : ℤ)) ^ (ts.length + 2) :=
    pow_le_pow_right₀ (by norm_num) (by omega)
  have hsplit : allowance (ts ++ [t])
      = (allowance ts + (t.exact + noise) * (1 + 2 ^ (-53 : ℤ)) ^ (ts.length + 2))
        * (1 + 2 ^ (-53 : ℤ)) := by
    unfold allowance
    rw [exactTotal_snoc, List.length_append, List.length_singleton,
      show ts.length + 1 + 2 = ts.length + 2 + 1 by omega, pow_succ]
    push_cast
    ring
  rw [hsplit]
  have hnoise := noise_pos
  gcongr

/-- The sum of the terms in binary64 is as far from the exact total as its
allowance, at most. -/
theorem sum_error (hts : Unsigned ts) (hbound : allowance ts ≤ 2 ^ (1023 : ℤ)) :
    (sumOf ts).Nonneg
      ∧ |(sumOf ts).magnitude - exactTotal ts| ≤ allowance ts - exactTotal ts := by
  induction ts using List.reverseRecOn with
  | nil =>
      refine ⟨nonneg_zero, ?_⟩
      have hzero : (sumOf []).magnitude = 0 := Rank.value_zero
      simp [hzero, exactTotal, allowance_nil]
  | append_singleton ts t ih =>
      have ht : t.amount.negative = false := hts t (by simp)
      have hts' : Unsigned ts := fun other hother => hts other (by simp [hother])
      have hsnoc := allowance_snoc ht ts
      have hexact := exact_nonneg ht
      have htotal := exactTotal_nonneg hts'
      have hallow := exactTotal_le_allowance hts'
      have hnoise := noise_pos
      have hpair : 0 ≤ (t.exact + noise) * (1 + 2 ^ (-53 : ℤ)) ^ 2 := by positivity
      have hlarge : allowance ts + (t.exact + noise) * (1 + 2 ^ (-53 : ℤ)) ^ 2
          ≤ 2 ^ (1023 : ℤ) := by
        refine le_trans (le_trans ?_ hsnoc) hbound
        exact le_mul_of_one_le_right (by linarith) (by norm_num)
      obtain ⟨hsum, herror⟩ := ih hts' (by linarith)
      obtain ⟨hterm, herror'⟩ := term_error ht (by linarith)
      obtain ⟨herror, herror₂⟩ := abs_le.mp herror
      obtain ⟨herror', herror₂'⟩ := abs_le.mp herror'
      have htiny : (0 : ℚ) < 2 ^ (-1075 : ℤ) := by positivity
      have hadded : 0 ≤ (sumOf ts).magnitude + t.nanos.magnitude :=
        add_nonneg (magnitude_nonneg _) (magnitude_nonneg _)
      have hadded_le : (sumOf ts).magnitude + t.nanos.magnitude ≤ 2 ^ (1023 : ℤ) := by
        linarith
      obtain ⟨hnonneg, hrank⟩ := hsum.add hterm
      have hvalue : (sumOf (ts ++ [t])).magnitude
          = Rank.value (Rank.nearest ((sumOf ts).magnitude + t.nanos.magnitude)) := by
        rw [Nat.min_eq_left (Rank.nearest_lt_rankBound hadded_le).le] at hrank
        rw [sumOf_snoc]
        exact congrArg Rank.value hrank
      obtain ⟨hround, hround'⟩ := abs_le.mp (Rank.nearest_error_add hadded)
      refine ⟨sumOf_snoc ts t ▸ hnonneg, abs_le.mpr ?_⟩
      rw [hvalue, exactTotal_snoc]
      generalize (2 : ℚ) ^ (-1075 : ℤ) = tiny at *
      generalize (t.exact + noise) * (1 + 2 ^ (-53 : ℤ)) ^ 2 = reach at *
      norm_num at hround hround' hsnoc ⊢
      constructor <;> linarith

-- ============================================================= the total

/-- The whole number of nanoseconds next to the sum decides: more than 2^64 are
refused, and 2^64 are held one below. -/
theorem total?_of_finite (hsum : (sumOf ts).Nonneg)
    (hfin : (sumOf ts).isFinite = true) :
    ∃ n : ℕ, (sumOf ts).magnitude - 1 / 2 < n ∧ (n : ℚ) ≤ (sumOf ts).magnitude + 1 / 2
      ∧ total? ts = if n ≤ wordBound then some (ofNanos (min n (wordBound - 1)))
        else none := by
  obtain ⟨n, hround, hround_fin, hmag, hlow, hhigh⟩ := hsum.round_exact hfin
  refine ⟨n, hlow, hhigh, ?_⟩
  have hle : (sumOf ts).round ≤ .ofNat wordBound ↔ n ≤ wordBound := by
    rw [hround.le_iff_magnitude (nonneg_ofNat _), hmag, magnitude_wordBound]
    exact Nat.cast_le
  have hsaturate : (sumOf ts).round.saturate (wordBound - 1) = min n (wordBound - 1) := by
    rw [hround.saturate hround_fin, hmag, ← Int.cast_natCast, Rat.floor_intCast,
      Int.toNat_natCast]
  show (if (sumOf ts).round.isFinite ∧ (sumOf ts).round ≤ .ofNat wordBound
    then some (ofNanos ((sumOf ts).round.saturate (wordBound - 1))) else none) = _
  simp only [hround_fin, hle, hsaturate, true_and]

theorem isFinite_sumOf (hsum : (sumOf ts).Nonneg)
    (hsmall : (sumOf ts).magnitude < 2 ^ (1024 : ℤ)) : (sumOf ts).isFinite = true := by
  refine isFinite_of_rank hsum (Rank.value_strictMono.lt_iff_lt.mp ?_)
  rw [Rank.value_rankBound]
  exact hsmall

theorem wordBound_lt : (wordBound : ℚ) + 1 < 2 ^ (1024 : ℤ) := by
  refine lt_of_lt_of_le (b := (2 : ℚ) ^ (65 : ℤ)) (by norm_num [wordBound]) ?_
  exact zpow_le_zpow_right₀ one_le_two (by decide)

/-- A sum less than half a nanosecond away from a whole number of them is read
as that number. -/
theorem total?_of_near {n : ℕ} (hsum : (sumOf ts).Nonneg)
    (hnear : |(sumOf ts).magnitude - n| < 1 / 2) (hn : n < wordBound) :
    total? ts = some (ofNanos n) := by
  have hcast : (n : ℚ) < wordBound := by exact_mod_cast hn
  obtain ⟨hlow, hhigh⟩ := abs_lt.mp hnear
  have hsmall : (sumOf ts).magnitude < wordBound + 1 := by linarith
  have hfin := isFinite_sumOf hsum (hsmall.trans wordBound_lt)
  obtain ⟨nearest, hlow', hhigh', htotal⟩ := total?_of_finite hsum hfin
  have hsame : nearest = n := by
    have hbounds : (nearest : ℚ) < n + 1 ∧ (n : ℚ) < nearest + 1 := by
      constructor <;> linarith
    have hnat : nearest < n + 1 ∧ n < nearest + 1 := by exact_mod_cast hbounds
    omega
  rw [htotal, hsame, if_pos hn.le, Nat.min_eq_left (by omega)]

/-- With fewer than 2^32 terms the roundings cannot double the total. -/
theorem allowance_lt (hts : Unsigned ts) (hlength : ts.length < 4294967296)
    (htotal : exactTotal ts ≤ 2 ^ 63) : allowance ts < wordBound := by
  have hexact := exactTotal_nonneg hts
  have hlength' : (ts.length : ℚ) < 4294967296 := by exact_mod_cast hlength
  have hgrowth := growth_le (m := ts.length + 2) (by omega)
  have hgrowth' : (1 + 2 ^ (-53 : ℤ) : ℚ) ^ (ts.length + 2) ≤ 3 / 2 := by
    push_cast at hgrowth
    norm_num at hgrowth ⊢
    linarith
  have hnoise : ts.length * noise ≤ 1 := by
    have hsmall : noise ≤ 2 ^ (-32 : ℤ) := zpow_le_zpow_right₀ one_le_two (by decide)
    norm_num at hsmall
    nlinarith [noise_pos]
  have hbase : 0 ≤ exactTotal ts + ts.length * noise := by
    have hpos := mul_nonneg (Nat.cast_nonneg (α := ℚ) ts.length) noise_pos.le
    linarith
  unfold allowance
  calc (exactTotal ts + ts.length * noise) * (1 + 2 ^ (-53 : ℤ)) ^ (ts.length + 2)
      ≤ (exactTotal ts + ts.length * noise) * (3 / 2) :=
        mul_le_mul_of_nonneg_left hgrowth' hbase
    _ ≤ (2 ^ 63 + 1) * (3 / 2) := by gcongr
    _ < wordBound := by norm_num [wordBound]

theorem total?_isSome_of_le (hts : Unsigned ts) (hlength : ts.length < 4294967296)
    (htotal : exactTotal ts ≤ 2 ^ 63) : ∃ d, total? ts = some d := by
  have hallow := allowance_lt hts hlength htotal
  have hword : (wordBound : ℚ) ≤ 2 ^ (1023 : ℤ) := by
    refine le_trans (b := (2 : ℚ) ^ (64 : ℤ)) (by norm_num [wordBound]) ?_
    exact zpow_le_zpow_right₀ one_le_two (by decide)
  obtain ⟨hsum, herror⟩ := sum_error hts (hallow.le.trans hword)
  have habove := (abs_le.mp herror).2
  have hsmall : (sumOf ts).magnitude < wordBound + 1 := by linarith
  have hfin := isFinite_sumOf hsum (hsmall.trans wordBound_lt)
  obtain ⟨n, -, hhigh, htotal?⟩ := total?_of_finite hsum hfin
  have hn : n ≤ wordBound := by
    have hcast : (n : ℚ) < (wordBound + 1 : ℕ) := by
      push_cast
      linarith
    exact Nat.lt_succ_iff.mp (by exact_mod_cast hcast)
  exact ⟨_, htotal?.trans (if_pos hn)⟩

-- ============================================================ the grammar

theorem total?_nil : total? [] = some (ofNanos 0) := by
  decide +kernel

/-- The single zero is left out of the terms, and changes nothing. -/
theorem parse?_eq (text : String) :
    parse? text = if Text.trim text.toList = [] then none
      else if Text.trim text.toList = ['0'] then total? []
      else (terms? (Text.trim text.toList)).bind total? := by
  rw [total?_nil]
  unfold parse?
  generalize Text.trim text.toList = cs
  split
  case h_1 => rfl
  case h_2 => rfl
  case h_3 hnil hzero => rw [if_neg hnil, if_neg hzero]

/-- Nothing but the spelled terms are added up. -/
theorem parse?_of_spells {text : String} (hspells : Spells (Text.trim text.toList) ts) :
    parse? text = total? ts := by
  rw [parse?_eq]
  generalize Text.trim text.toList = cs at *
  cases hspells with
  | zero => rfl
  | terms nonempty hterms =>
      have hread := terms?_eq_some_iff.mpr hterms
      have hnil : cs ≠ [] := by
        rintro rfl
        rw [terms?_eq, if_pos rfl] at hread
        exact nonempty (Option.some.inj hread).symm
      have hzero : cs ≠ ['0'] := by
        rintro rfl
        have hrefused : terms? ['0'] = none := by decide +kernel
        rw [hrefused] at hread
        cases hread
      rw [if_neg hnil, if_neg hzero, hread, Option.bind_some]

theorem parse?_of_not_spells {text : String}
    (hnone : ¬∃ ts, Spells (Text.trim text.toList) ts) : parse? text = none := by
  rw [parse?_eq]
  split_ifs with hnil hzero
  · rfl
  · exact absurd ⟨[], hzero ▸ .zero⟩ hnone
  · cases hterms : terms? (Text.trim text.toList) with
    | none => rfl
    | some ts =>
        have hspelled := terms?_eq_some_iff.mp hterms
        refine absurd ⟨ts, .terms ?_ hspelled⟩ hnone
        rintro rfl
        rw [terms?_eq, if_neg hnil] at hterms
        obtain ⟨step, -, hcons⟩ := Option.bind_eq_some_iff.mp hterms
        simp at hcons

theorem Spells.unsigned (hspells : Spells cs ts) : Unsigned ts := by
  cases hspells with
  | zero => simp [Unsigned]
  | terms nonempty hterms => exact hterms.unsigned

/-- A text between its blanks is a duration exactly if it spells one: other
texts are refused and quoted in full, and what spells fewer than 2^32 terms of
at most 2^63 nanoseconds together is accepted. The scan of any text ends, with
nothing left and its terms read, or at a round that fails and then without terms.
What was taken has at least one character for each round, and ends where a
character ends. A round cuts twice, at the first character that is not
numeric and at the next that is, and it succeeds exactly if a number and a name stand
between the cuts. -/
theorem durationOf_grammar (text : String) :
    let cs := Text.trim text.toList
    Text.Trims text.toList cs
      ∧ ((¬∃ ts, Spells cs ts) →
          Settings.durationOf text = .error (.invalidDuration text))
      ∧ (∀ ts, Spells cs ts → ts.length < 2 ^ 32 → exactTotal ts ≤ 2 ^ 63 →
          ∃ d, Settings.durationOf text = .ok d)
      ∧ (∃ ts last, Scans cs ts last
          ∧ (last = [] ∧ terms? cs = some ts
            ∨ last ≠ [] ∧ round? last = none ∧ terms? cs = none))
      ∧ ∀ ts last, Scans cs ts last →
          (∃ taken, cs = taken ++ last ∧ ts.length ≤ taken.length
            ∧ (String.ofList taken).rawEndPos.IsValid (String.ofList cs))
          ∧ ∃ number name rest, last = number ++ (name ++ rest)
            ∧ Text.CutsAt isNumeric last (String.ofList number).rawEndPos
            ∧ Text.CutsAt (!isNumeric ·) (name ++ rest) (String.ofList name).rawEndPos
            ∧ ∀ t next, round? last = some (t, next)
              ↔ SpellsNumber number t.amount ∧ name ∈ t.unit.names ∧ next = rest := by
  intro cs
  refine ⟨Text.trims_trim _, ?_, ?_, scan_ends cs, ?_⟩
  · intro hnone
    rw [Settings.durationOf, parse?_of_not_spells hnone]
  · intro ts hspells hlength htotal
    obtain ⟨d, hd⟩ := total?_isSome_of_le hspells.unsigned hlength htotal
    exact ⟨d, by rw [Settings.durationOf, parse?_of_spells hspells, hd]⟩
  · intro ts last hscan
    obtain ⟨taken, hsplit, hlength⟩ := hscan.taken
    refine ⟨⟨taken, hsplit, hlength, ?_⟩, exists_cuts last⟩
    rw [hsplit, String.ofList_append]
    exact String.Pos.Raw.isValid_iff_exists_append.mpr ⟨_, _, rfl, rfl⟩

/-- A point needs a digit on one side only, and blanks of any kind may stand
around; a second point is one too many. -/
theorem durationOf_grammar_of_points :
    (∃ d, Settings.durationOf "\u00A01.h.25\u00B5s\u2003" = .ok d)
      ∧ Settings.durationOf " 1..5s" = .error (.invalidDuration " 1..5s") := by
  obtain ⟨-, -, haccept, -, -⟩ := durationOf_grammar "\u00A01.h.25\u00B5s\u2003"
  obtain ⟨-, hrefuse, -, -, -⟩ := durationOf_grammar " 1..5s"
  constructor
  · have hread : terms? (Text.trim "\u00A01.h.25\u00B5s\u2003".toList)
        = some [⟨⟨false, 1, 0⟩, .hour⟩, ⟨⟨false, 25, -2⟩, .microsecond⟩] := by
      decide +kernel
    refine haccept _ (.terms (by simp) (terms?_eq_some_iff.mp hread)) (by simp) ?_
    norm_num [exactTotal, Term.exact, Decimal.toRat, Decimal.magnitude, TimeUnit.nanos]
  · refine hrefuse ?_
    rintro ⟨ts, hspells⟩
    have hread : terms? (Text.trim " 1..5s".toList) = none := by decide +kernel
    have hcs : Text.trim " 1..5s".toList = ['1', '.', '.', '5', 's'] := by decide +kernel
    rw [hcs] at hspells hread
    cases hspells with
    | terms nonempty hterms =>
        rw [terms?_eq_some_iff.mpr hterms] at hread
        cases hread

end Turnstile.Duration
