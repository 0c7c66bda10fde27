/-
The grammar of floating-point numerals, and that the reader accepts nothing else.

A numeral is a sign or none, and then a name in any mixture of cases or a number:
a mantissa, which is written like the number of a duration, and an exponent or none.
`SpellsNumeral` says so without a reader, and gives the value that is spelled: the
nearest binary64 number to the exact one, rounded once.

Where a mantissa ends is told by what follows it: an exponent begins with a letter,
which is neither a digit nor a point (`SpellsExponent.stops`). No name begins like a
number, and nothing that follows a sign begins with another (`SpellsUnsigned.stops`).
So the cases of the reader are those of the grammar (`unsigned?_eq_some_iff`,
`binary64?_eq_some_iff`).

Chain (settings): Text/Digits.lean, Duration/Grammar.lean, Decimal/Nearest.lean and
Toml/Numbers.lean (for signs) below; Settings/Environment.lean above.
-/
import Mathlib
import Turnstile.Proofs.Decimal.Nearest
import Turnstile.Proofs.Duration.Grammar
import Turnstile.Proofs.Text.Digits
import Turnstile.Proofs.Toml.Numbers

namespace Turnstile.Decimal.Numeral

open Text (isDigit positional natural? Stops)
open Duration (SpellsNumber isNumeric)
open Toml (SpellsSign)

variable {c : Char} {cs rest number : List Char} {d : Decimal} {n : ℤ} {negative : Bool}
  {x : Binary64}

-- ======================================================== the grammar

/-- An exponent is a mark, a sign or none, and digits, or it is left out. -/
inductive SpellsExponent : List Char → ℤ → Prop where
  | none : SpellsExponent [] 0
  | marked {mark : Char} {sign digits : List Char} {negative : Bool}
      (hmark : mark = 'e' ∨ mark = 'E') (hsign : SpellsSign sign negative)
      (nonempty : digits ≠ []) (digital : ∀ c ∈ digits, isDigit c = true) :
      SpellsExponent (mark :: (sign ++ digits))
        (if negative then -(positional 10 digits : ℤ) else positional 10 digits)

/-- What follows the sign: a name, or a mantissa and an exponent. -/
inductive SpellsUnsigned (negative : Bool) : List Char → Binary64 → Prop where
  | infinity {name : List Char}
      (hname : lowered name = ['i', 'n', 'f']
        ∨ lowered name = ['i', 'n', 'f', 'i', 'n', 'i', 't', 'y']) :
      SpellsUnsigned negative name (.infinity negative)
  | nan {name : List Char} (hname : lowered name = ['n', 'a', 'n']) :
      SpellsUnsigned negative name .nan
  | number {mantissa exponent : List Char} {d : Decimal} {n : ℤ}
      (hmantissa : SpellsNumber mantissa d) (hexponent : SpellsExponent exponent n) :
      SpellsUnsigned negative (mantissa ++ exponent)
        (.ofRat negative ((if negative then -1 else 1) * (d.toRat * 10 ^ n)))

/-- A numeral: a sign or none in front. -/
def SpellsNumeral (cs : List Char) (x : Binary64) : Prop :=
  ∃ sign negative rest, cs = sign ++ rest ∧ SpellsSign sign negative
    ∧ SpellsUnsigned negative rest x

-- =============================================================== signs

/-- A character that may be a sign. -/
def isSign (c : Char) : Bool :=
  c == '+' || c == '-'

theorem sign_append {sign : List Char} (hsign : SpellsSign sign negative)
    (hrest : Stops isSign rest) : Numeral.sign (sign ++ rest) = (negative, rest) := by
  cases hsign with
  | none =>
      rw [List.nil_append]
      unfold Numeral.sign
      split
      case h_1 => exact absurd (Text.stops_cons.mp hrest) (by decide)
      case h_2 => exact absurd (Text.stops_cons.mp hrest) (by decide)
      case h_3 => rfl
  | plus => rfl
  | minus => rfl

theorem sign_spells (cs : List Char) :
    ∃ sign, cs = sign ++ (Numeral.sign cs).2 ∧ SpellsSign sign (Numeral.sign cs).1 := by
  unfold Numeral.sign
  split
  case h_1 => exact ⟨['-'], rfl, .minus⟩
  case h_2 => exact ⟨['+'], rfl, .plus⟩
  case h_3 => exact ⟨[], rfl, .none⟩

/-- A digit is no sign, and neither is a point. Neither of them is a letter. -/
theorem of_numeric (hc : isNumeric c = true) : isSign c = false ∧ c.toLower = c := by
  have hrange : c.toNat = 46 ∨ 48 ≤ c.toNat ∧ c.toNat ≤ 57 := by
    unfold isNumeric isDigit at hc
    rw [Bool.or_eq_true, Bool.and_eq_true, decide_eq_true_eq, decide_eq_true_eq, beq_iff_eq] at hc
    rcases hc with hdigit | rfl
    · exact .inr hdigit
    · exact .inl rfl
  constructor
  · unfold isSign
    rw [Bool.or_eq_false_iff, beq_eq_false_iff_ne, beq_eq_false_iff_ne]
    constructor
    · rintro rfl
      exact absurd hrange (by decide)
    · rintro rfl
      exact absurd hrange (by decide)
  · unfold Char.toLower
    rw [dif_neg]
    rintro ⟨hlow, -⟩
    have hlow' : 65 ≤ c.toNat := hlow
    omega

-- =========================================================== exponents

theorem exponent?_cons (c : Char) (cs : List Char) :
    exponent? (c :: cs) = if c = 'e' ∨ c = 'E' then
        (natural? (Numeral.sign cs).2).map fun k : ℕ =>
          if (Numeral.sign cs).1 then -(k : ℤ) else k
      else none := by
  -- the reader turns the digits into an integer before it looks at the sign
  unfold exponent?
  dsimp only
  generalize Numeral.sign cs = signed
  cases natural? signed.2 <;> rfl

theorem exponent?_eq_some_iff : exponent? cs = some n ↔ SpellsExponent cs n := by
  constructor
  · intro hread
    cases cs with
    | nil =>
        cases hread
        exact .none
    | cons mark rest =>
        obtain ⟨sign, hsplit, hsign⟩ := sign_spells rest
        rw [exponent?_cons, Option.ite_none_right_eq_some] at hread
        obtain ⟨hmark, hread⟩ := hread
        obtain ⟨k, hdigits, rfl⟩ := Option.map_eq_some_iff.mp hread
        obtain ⟨nonempty, digital, rfl⟩ := Text.natural?_eq_some_iff.mp hdigits
        conv in mark :: rest => rw [hsplit]
        exact .marked hmark hsign nonempty digital
  · intro hspelled
    cases hspelled with
    | none => rfl
    | @marked mark sign digits negative hmark hsign nonempty digital =>
        have hstop : Stops isSign digits := by
          intro c hc
          have hdigit := digital c (List.mem_of_mem_head? hc)
          exact (of_numeric (by simp [isNumeric, hdigit])).1
        have hdigits : natural? digits = some (positional 10 digits) :=
          Text.natural?_eq_some_iff.mpr ⟨nonempty, digital, rfl⟩
        rw [exponent?_cons, if_pos hmark, sign_append hsign hstop, hdigits]
        rfl

theorem SpellsExponent.stops (hexponent : SpellsExponent cs n) : Stops isNumeric cs := by
  cases hexponent with
  | none => exact Text.stops_nil
  | marked hmark =>
      rcases hmark with rfl | rfl
      · exact Text.stops_cons.mpr (by decide)
      · exact Text.stops_cons.mpr (by decide)

-- ============================================================== numerals

/-- The sign and the exponent are applied exactly, and what comes out is rounded once. -/
theorem toBinary64_assemble (negative : Bool) (whole fraction : List Char) (n : ℤ) :
    (assemble negative whole fraction n).toBinary64
      = .ofRat negative ((if negative then -1 else 1)
          * ((assemble false whole fraction 0).toRat * 10 ^ n)) := by
  have hscale : (10 : ℚ) ^ (n - (fraction.length : ℤ))
      = 10 ^ (0 - (fraction.length : ℤ)) * 10 ^ n := by
    rw [← zpow_add₀ (by norm_num)]
    congr 1
    ring
  rw [toBinary64_eq]
  show Binary64.ofRat negative _ = _
  congr 1
  simp only [assemble, toRat, magnitude, hscale]
  cases negative
  · simp [mul_assoc]
  · simp [mul_assoc]

/-- A number begins with a digit or a point. -/
theorem exists_numeric (hnumber : SpellsNumber number d) :
    ∃ c cs, number = c :: cs ∧ isNumeric c = true := by
  obtain ⟨nonempty, hnumeric⟩ := hnumber.numeric
  obtain ⟨c, cs, rfl⟩ := List.exists_cons_of_ne_nil nonempty
  exact ⟨c, cs, rfl, hnumeric c (List.mem_cons_self ..)⟩

theorem SpellsUnsigned.stops (hspelled : SpellsUnsigned negative cs x) :
    Stops isSign cs := by
  have hletter {c : Char} (hc : c.toLower = 'i' ∨ c.toLower = 'n') : isSign c = false := by
    rw [← Bool.not_eq_true, isSign, Bool.or_eq_true, beq_iff_eq, beq_iff_eq]
    rintro (rfl | rfl)
    · exact absurd hc (by decide)
    · exact absurd hc (by decide)
  cases hspelled with
  | infinity hname =>
      cases cs with
      | nil => exact Text.stops_nil
      | cons c cs =>
          have hhead : c.toLower = 'i' :=
            hname.elim (fun h => (List.cons.inj h).1) fun h => (List.cons.inj h).1
          exact Text.stops_cons.mpr (hletter (.inl hhead))
  | nan hname =>
      cases cs with
      | nil => exact Text.stops_nil
      | cons c cs => exact Text.stops_cons.mpr (hletter (.inr (List.cons.inj hname).1))
  | number hmantissa hexponent =>
      obtain ⟨c, cs, rfl, hc⟩ := exists_numeric hmantissa
      exact Text.stops_cons.mpr (of_numeric hc).1

theorem unsigned?_eq_some_iff :
    unsigned? negative cs = some x ↔ SpellsUnsigned negative cs x := by
  unfold unsigned?
  dsimp only
  constructor
  · intro hread
    split_ifs at hread with hinfinity hnan
    · cases hread
      exact .infinity hinfinity
    · cases hread
      exact .nan hnan
    · simp only [Option.bind_eq_bind, Option.bind_eq_some_iff, Option.pure_def,
        Option.some.injEq] at hread
      obtain ⟨⟨whole, fraction, rest⟩, hmantissa, n, hexponent, rfl⟩ := hread
      obtain ⟨mantissa, rfl, hspelled⟩ := Duration.mantissa?_spells hmantissa
      rw [toBinary64_assemble]
      exact .number hspelled (exponent?_eq_some_iff.mp hexponent)
  · intro hspelled
    cases hspelled with
    | infinity hname => rw [if_pos hname]
    | nan hname => rw [hname, if_neg (by decide), if_pos rfl]
    | @number mantissa exponent d n hmantissa hexponent =>
        obtain ⟨whole, fraction, hread, rfl⟩ :=
          Duration.mantissa?_append hmantissa hexponent.stops
        -- a number begins with a character that no name has
        have hname {c : Char} {name : List Char} (hc : isNumeric c = false) :
            lowered (mantissa ++ exponent) ≠ c :: name := by
          obtain ⟨c', cs', rfl, hnumeric⟩ := exists_numeric hmantissa
          intro heq
          have hhead : c'.toLower = c := (List.cons.inj heq).1
          rw [(of_numeric hnumeric).2] at hhead
          rw [hhead, hc] at hnumeric
          cases hnumeric
        rw [if_neg (not_or.mpr ⟨hname (by decide), hname (by decide)⟩),
          if_neg (hname (by decide)), hread, Option.bind_eq_bind, Option.bind_some,
          exponent?_eq_some_iff.mpr hexponent, ← toBinary64_assemble]
        rfl

/-- What the reader accepts is what spells a numeral, and it reads what that spells. -/
theorem binary64?_eq_some_iff : binary64? cs = some x ↔ SpellsNumeral cs x := by
  show unsigned? (Numeral.sign cs).1 (Numeral.sign cs).2 = some x ↔ _
  constructor
  · intro hread
    obtain ⟨sign, hsplit, hsign⟩ := sign_spells cs
    exact ⟨sign, _, _, hsplit, hsign, unsigned?_eq_some_iff.mp hread⟩
  · rintro ⟨sign, negative, rest, rfl, hsign, hspelled⟩
    rw [sign_append hsign hspelled.stops]
    exact unsigned?_eq_some_iff.mpr hspelled

end Turnstile.Decimal.Numeral
