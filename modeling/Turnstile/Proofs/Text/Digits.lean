/-
The decimal digits of a number spell the number, without a zero in front, and so do
the hexadecimal ones (`positional_decimalDigits`, `positional_hexDigits`). What reads
as a number is a string of digits, any number of zeros in front of them, and below a
bound also with a plus sign (`bounded?_eq_some_iff`).

Chain (text): below Duration/Whole.lean, Toml/Strings.lean, Toml/Numbers.lean,
Settings/Numerals.lean and Http/AddressText.lean.
-/
import Mathlib
import Turnstile.Text.Character

namespace Turnstile.Text

variable {c : Char} {n bound : ℕ} {cs : List Char}

theorem isDigit_eq (c : Char) : isDigit c = c.isDigit := by
  unfold isDigit Char.isDigit
  rfl

theorem isDigit_of_mem_decimalDigits (hmem : c ∈ decimalDigits n) : isDigit c = true := by
  rw [isDigit_eq]
  exact Nat.isDigit_of_mem_toDigits (by omega) (by omega) hmem

theorem decimalDigits_ne_nil (n : ℕ) : decimalDigits n ≠ [] :=
  Nat.toDigits_ne_nil

/-- Only the digits of zero begin with a zero. -/
theorem decimalDigits_lead (n : ℕ) :
    decimalDigits n = ['0'] ∨ (decimalDigits n).head? ≠ some '0' := by
  unfold decimalDigits
  induction n using Nat.strong_induction_on with
  | h n ih =>
      by_cases hsmall : n < 10
      · rw [Nat.toDigits_of_lt_base hsmall]
        interval_cases n <;> simp [Nat.digitChar]
      · have hfront : 0 < n / 10 := Nat.div_pos (by omega) (by omega)
        have hdigits : Nat.toDigits 10 n
            = Nat.toDigits 10 (n / 10) ++ [Nat.digitChar (n % 10)] :=
          Nat.toDigits_of_base_le (by omega) (by omega)
        refine Or.inr ?_
        rw [hdigits, List.head?_append_of_ne_nil _ Nat.toDigits_ne_nil]
        rcases ih (n / 10) (by omega) with hzero | hlead
        · have hvalue := Nat.ofDigitChars_ten_toDigits (n := n / 10)
          rw [hzero] at hvalue
          exact absurd hvalue (by simp [Nat.ofDigitChars]; omega)
        · exact hlead

/-- Digits spell in base ten what the library's reader makes of them. -/
theorem positional_eq (cs : List Char) (hdigits : ∀ c ∈ cs, isDigit c = true) (n : ℕ) :
    cs.foldl (fun n c => 10 * n + digitValue c) n = Nat.ofDigitChars 10 cs n := by
  induction cs generalizing n with
  | nil => rfl
  | cons c cs ih =>
      obtain ⟨hc, hcs⟩ := List.forall_mem_cons.mp hdigits
      have hvalue : digitValue c = c.toNat - '0'.toNat := by
        unfold digitValue
        rw [if_pos hc]
      rw [List.foldl_cons, hvalue, ih hcs]
      rfl

theorem positional_decimalDigits (n : ℕ) : positional 10 (decimalDigits n) = n :=
  (positional_eq _ (fun _ hmem => isDigit_of_mem_decimalDigits hmem) 0).trans
    Nat.ofDigitChars_ten_toDigits

/-- A hexadecimal digit has the value it stands for. -/
theorem digitValue_digitChar {n : ℕ} (hn : n < 16) :
    isHexDigit n.digitChar = true ∧ digitValue n.digitChar = n := by
  have hall : ∀ n : Fin 16,
      isHexDigit (n : ℕ).digitChar = true ∧ digitValue (n : ℕ).digitChar = n := by decide
  exact hall ⟨n, hn⟩

-- ========================================================== hexadecimal digits

theorem hexDigits_of_lt (hn : n < 16) : hexDigits n = [n.digitChar] :=
  Nat.toDigits_of_lt_base hn

theorem hexDigits_of_le (hn : 16 ≤ n) :
    hexDigits n = hexDigits (n / 16) ++ [(n % 16).digitChar] :=
  Nat.toDigits_of_base_le (by omega) hn

theorem hexDigits_ne_nil (n : ℕ) : hexDigits n ≠ [] :=
  Nat.toDigits_ne_nil

theorem isHexDigit_of_mem_hexDigits (hmem : c ∈ hexDigits n) : isHexDigit c = true := by
  induction n using Nat.strong_induction_on with
  | h n ih =>
      rcases Nat.lt_or_ge n 16 with hsmall | hlarge
      · rw [hexDigits_of_lt hsmall, List.mem_singleton] at hmem
        rw [hmem]
        exact (digitValue_digitChar hsmall).1
      · rw [hexDigits_of_le hlarge, List.mem_append, List.mem_singleton] at hmem
        rcases hmem with hfront | rfl
        · exact ih (n / 16) (by omega) hfront
        · exact (digitValue_digitChar (Nat.mod_lt n (by omega))).1

theorem positional_hexDigits (n : ℕ) : positional 16 (hexDigits n) = n := by
  induction n using Nat.strong_induction_on with
  | h n ih =>
      rcases Nat.lt_or_ge n 16 with hsmall | hlarge
      · rw [hexDigits_of_lt hsmall]
        show 16 * 0 + digitValue n.digitChar = n
        rw [(digitValue_digitChar hsmall).2, Nat.mul_zero, Nat.zero_add]
      · have hvalue := (digitValue_digitChar (Nat.mod_lt n (show 0 < 16 by omega))).2
        have hfront : positional 16 (hexDigits (n / 16)) = n / 16 := ih (n / 16) (by omega)
        unfold positional at hfront ⊢
        rw [hexDigits_of_le hlarge, List.foldl_append, hfront]
        show 16 * (n / 16) + digitValue (n % 16).digitChar = n
        rw [hvalue]
        omega

theorem isHexDigit_of_isDigit (hc : isDigit c = true) : isHexDigit c = true := by
  unfold isHexDigit
  rw [hc]
  rfl

-- ========================================================== digits and blanks

theorem not_isBlank_of_isHexDigit (hdigit : isHexDigit c = true) : isBlank c = false := by
  have hrange : (48 ≤ c.toNat ∧ c.toNat ≤ 57 ∨ 97 ≤ c.toNat ∧ c.toNat ≤ 102)
      ∨ 65 ≤ c.toNat ∧ c.toNat ≤ 70 := by
    simp only [isHexDigit, isDigit, Bool.or_eq_true, Bool.and_eq_true,
      decide_eq_true_eq] at hdigit
    exact hdigit
  unfold isBlank
  simp only [Bool.or_eq_false_iff, Bool.and_eq_false_iff, decide_eq_false_iff_not,
    beq_eq_false_iff_ne]
  omega

theorem not_isBlank_of_isDigit (hdigit : isDigit c = true) : isBlank c = false :=
  not_isBlank_of_isHexDigit (isHexDigit_of_isDigit hdigit)

-- ========================================================== what reads as a number

theorem natural?_eq_some_iff : natural? cs = some n
    ↔ cs ≠ [] ∧ (∀ c ∈ cs, isDigit c = true) ∧ positional 10 cs = n := by
  unfold natural?
  rw [Option.ite_none_right_eq_some, List.all_eq_true, Option.some.injEq, and_assoc]

/-- A number below a bound: digits, with a plus sign in front or none. -/
def SpellsBelow (bound : ℕ) (cs : List Char) (n : ℕ) : Prop :=
  ∃ sign digits, cs = sign ++ digits ∧ (sign = [] ∨ sign = ['+'])
    ∧ digits ≠ [] ∧ (∀ c ∈ digits, isDigit c = true) ∧ positional 10 digits = n
    ∧ n < bound

/-- Digits and their bound, after the sign is gone. -/
theorem natural?_filter_eq_some_iff : (natural? cs).filter (· < bound) = some n
    ↔ cs ≠ [] ∧ (∀ c ∈ cs, isDigit c = true) ∧ positional 10 cs = n ∧ n < bound := by
  rw [Option.filter_eq_some_iff, natural?_eq_some_iff, decide_eq_true_iff, and_assoc, and_assoc]

theorem bounded?_eq_some_iff : bounded? bound cs = some n ↔ SpellsBelow bound cs n := by
  unfold bounded?
  constructor
  · intro hread
    dsimp only at hread
    split at hread
    case h_1 digits => exact ⟨['+'], digits, rfl, .inr rfl, natural?_filter_eq_some_iff.mp hread⟩
    case h_2 => exact ⟨[], cs, rfl, .inl rfl, natural?_filter_eq_some_iff.mp hread⟩
  · rintro ⟨sign, digits, rfl, rfl | rfl, hspelled⟩
    · rw [List.nil_append]
      have hplain : '+' ∉ digits := by
        intro hplus
        exact absurd (hspelled.2.1 '+' hplus) (by decide)
      dsimp only
      split
      case h_1 rest => exact absurd (List.mem_cons_self ..) hplain
      case h_2 => exact natural?_filter_eq_some_iff.mpr hspelled
    · exact natural?_filter_eq_some_iff.mpr hspelled

end Turnstile.Text
