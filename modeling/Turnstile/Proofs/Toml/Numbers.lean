/-
How numbers are written, and that they read back.

`SpellsWhole`, `SpellsScale` and `SpellsFloat` say how the decimal numbers of a
document are written, with underscores between digits wherever they may stand. A
number is not delimited, so it reads back only where a value may end (`Ends`);
there every reader stops, because none of its characters may follow. Before a
number is tried, the reader looks for a date or a time, which would show in the
character after the first digits (`moment?_eq_none`).

Every natural number and every finite binary64 number has such a text
(`spellsNatural_decimalDigits`, `exists_spellsFloat`).

Chain (toml): Text/Runs.lean, Text/Digits.lean and Decimal/Exact.lean below;
Toml/Written.lean above.
-/
import Mathlib
import Turnstile.Proofs.Decimal.Exact
import Turnstile.Proofs.Text.Digits
import Turnstile.Proofs.Text.Runs
import Turnstile.Toml.Document

namespace Turnstile.Toml

open Text (isDigit decimalDigits positional Stops)

variable {written ds tail rest s w ws f fs e : List Char} {negative : Bool} {n : ℤ}
  {d : Decimal} {x : Binary64}

-- ============================================================== endings

/-- The characters that may follow a value: the end of a line, and what stands
between or after the values of an array or a table. -/
def isEnd (c : Char) : Bool :=
  c == '\n' || c == ',' || c == ']' || c == '\x7d'

/-- A value may end before this. -/
def Ends (rest : List Char) : Prop :=
  Stops (!isEnd ·) rest

theorem Ends.stops {kind : Char → Bool} (hends : Ends rest)
    (hkind : ∀ c ∈ ['\n', ',', ']', '\x7d'], kind c = false) : Stops kind rest := by
  intro c hc
  have hend := hends c hc
  simp only [isEnd, Bool.not_eq_false', Bool.or_eq_true, beq_iff_eq] at hend
  refine hkind c ?_
  simp only [List.mem_cons, List.not_mem_nil, or_false]
  tauto

-- =============================================================== digits

/-- Digits with at most one underscore between any two, and the digits alone. -/
inductive Grouped : List Char → List Char → Prop where
  | one {c : Char} (hdigit : isDigit c = true) : Grouped [c] [c]
  | next {c : Char} {cs ds : List Char} (hdigit : isDigit c = true)
      (hrest : Grouped cs ds) : Grouped (c :: cs) (c :: ds)
  | under {c : Char} {cs ds : List Char} (hdigit : isDigit c = true)
      (hrest : Grouped cs ds) : Grouped (c :: '_' :: cs) (c :: ds)

/-- Digits may stand without underscores. -/
theorem Grouped.of_digits {ds : List Char} (nonempty : ds ≠ [])
    (hdigits : ∀ c ∈ ds, isDigit c = true) : Grouped ds ds := by
  induction ds with
  | nil => exact absurd rfl nonempty
  | cons c ds ih =>
      obtain ⟨hdigit, hrest⟩ := List.forall_mem_cons.mp hdigits
      cases ds with
      | nil => exact .one hdigit
      | cons => exact .next hdigit (ih (List.cons_ne_nil _ _) hrest)

/-- A number may go on with this. -/
def continuesDigits (c : Char) : Bool :=
  isDigit c || c == '_'

theorem ne_underscore {c : Char} (hdigit : isDigit c = true) : c ≠ '_' := by
  rintro rfl
  simp [isDigit] at hdigit

theorem moreDigits_of_stops (hrest : Stops continuesDigits rest) :
    moreDigits isDigit rest = ([], rest) := by
  cases rest with
  | nil => rfl
  | cons c rest =>
      have hc := Text.stops_cons.mp hrest
      simp only [continuesDigits, Bool.or_eq_false_iff, beq_eq_false_iff_ne] at hc
      rw [moreDigits, if_neg (by simp [hc.1])]
      exact fun _ _ h => absurd h hc.2

theorem moreDigits_cons {c : Char} (hdigit : isDigit c = true) (rest : List Char) :
    moreDigits isDigit (c :: rest)
      = (c :: (moreDigits isDigit rest).1, (moreDigits isDigit rest).2) := by
  rw [moreDigits, if_pos hdigit]
  exact fun _ _ h => absurd h (ne_underscore hdigit)

theorem moreDigits_under {c : Char} (hdigit : isDigit c = true) (rest : List Char) :
    moreDigits isDigit ('_' :: c :: rest)
      = (c :: (moreDigits isDigit rest).1, (moreDigits isDigit rest).2) := by
  rw [moreDigits, if_pos hdigit]

theorem Grouped.starts (hgrouped : Grouped written ds) :
    ∃ c cs, written = c :: cs ∧ isDigit c = true := by
  cases hgrouped with
  | one hdigit => exact ⟨_, _, rfl, hdigit⟩
  | next hdigit => exact ⟨_, _, rfl, hdigit⟩
  | under hdigit => exact ⟨_, _, rfl, hdigit⟩

theorem Grouped.moreDigits (hgrouped : Grouped written ds)
    (hrest : Stops continuesDigits rest) :
    moreDigits isDigit (written ++ rest) = (ds, rest) := by
  induction hgrouped with
  | one hdigit =>
      rw [List.singleton_append, moreDigits_cons hdigit, moreDigits_of_stops hrest]
  | next hdigit hmore ih => rw [List.cons_append, moreDigits_cons hdigit, ih]
  | @under c cs ds hdigit hmore ih =>
      obtain ⟨c', cs', rfl, hdigit'⟩ := hmore.starts
      rw [List.cons_append, List.cons_append, List.cons_append, moreDigits_cons hdigit,
        moreDigits_under hdigit', ← moreDigits_cons hdigit', ← List.cons_append, ih]

/-- Digits read back. -/
theorem Grouped.digits? (hgrouped : Grouped written ds)
    (hrest : Stops continuesDigits rest) :
    digits? isDigit (written ++ rest) = some (ds, rest) := by
  have hmore := hgrouped.moreDigits hrest
  obtain ⟨c, cs, rfl, hdigit⟩ := hgrouped.starts
  rw [List.cons_append, moreDigits_cons hdigit] at hmore
  rw [List.cons_append, Toml.digits?, if_pos hdigit, ← hmore]

/-- The digits before a point: a single zero, or no zero in front. -/
inductive SpellsWhole : List Char → List Char → Prop where
  | zero : SpellsWhole ['0'] ['0']
  | other {cs ds : List Char} (hgrouped : Grouped cs ds) (hlead : cs.head? ≠ some '0') :
      SpellsWhole cs ds

theorem SpellsWhole.starts (hwhole : SpellsWhole written ds) :
    ∃ c cs, written = c :: cs ∧ isDigit c = true := by
  cases hwhole with
  | zero => exact ⟨_, _, rfl, rfl⟩
  | other hgrouped => exact hgrouped.starts

theorem SpellsWhole.whole? (hwhole : SpellsWhole written ds)
    (hrest : Stops continuesDigits rest) :
    whole? (written ++ rest) = some (ds, rest) := by
  cases hwhole with
  | zero => rfl
  | other hgrouped hlead =>
      obtain ⟨c, cs, rfl, hdigit⟩ := hgrouped.starts
      have hread := hgrouped.digits? hrest
      rw [List.cons_append] at hread ⊢
      rw [Toml.whole?, hread]
      rintro tail htail
      obtain ⟨rfl, -⟩ := List.cons.inj htail
      exact hlead rfl

-- ============================================================ exponents

/-- A sign, or none. -/
inductive SpellsSign : List Char → Bool → Prop where
  | none : SpellsSign [] false
  | plus : SpellsSign ['+'] false
  | minus : SpellsSign ['-'] true

theorem SpellsSign.signed (hsign : SpellsSign s negative) {c : Char}
    (hdigit : isDigit c = true) (rest : List Char) :
    signed (s ++ c :: rest) = (negative, c :: rest) := by
  cases hsign with
  | none =>
      show signed (c :: rest) = _
      unfold Toml.signed
      split
      case h_1 htail => obtain ⟨rfl, -⟩ := List.cons.inj htail; simp [isDigit] at hdigit
      case h_2 htail => obtain ⟨rfl, -⟩ := List.cons.inj htail; simp [isDigit] at hdigit
      case h_3 => rfl
  | plus => rfl
  | minus => rfl

/-- An exponent, or none. -/
inductive SpellsScale : List Char → ℤ → Prop where
  | none : SpellsScale [] 0
  | exponent {mark : Char} {s f fs : List Char} {negative : Bool}
      (hmark : mark = 'e' ∨ mark = 'E') (hsign : SpellsSign s negative)
      (hdigits : Grouped f fs) :
      SpellsScale (mark :: (s ++ f))
        (if negative then -(positional 10 fs : ℤ) else positional 10 fs)

/-- An exponent reads back where a value may end. -/
theorem SpellsScale.scale? (hscale : SpellsScale e n) (hrest : Ends rest) :
    scale? (e ++ rest) = some (n, rest) := by
  cases hscale with
  | none =>
      rw [List.nil_append]
      cases rest with
      | nil => rfl
      | cons c rest =>
          have hmark : Stops (fun c => c == 'e' || c == 'E') (c :: rest) :=
            hrest.stops (by simp)
          have hc := Text.stops_cons.mp hmark
          simp only [Bool.or_eq_false_iff, beq_eq_false_iff_ne] at hc
          rw [Toml.scale?, if_neg (not_or.mpr hc)]
  | @exponent mark s f fs negative hmark hsign hdigits =>
      have hread := hdigits.digits? (hrest.stops (by simp [continuesDigits, isDigit]))
      obtain ⟨c, cs, rfl, hdigit⟩ := hdigits.starts
      rw [List.cons_append, List.append_assoc, Toml.scale?, if_pos hmark]
      rw [List.cons_append] at hread ⊢
      rw [hsign.signed hdigit]
      dsimp only
      rw [hread]
      cases negative <;> rfl

-- =============================================================== numbers

/-- A float has a fraction, an exponent, or both. -/
inductive SpellsFloat : List Char → Decimal → Prop where
  | pointed {s w ws f fs e : List Char} {negative : Bool} {n : ℤ}
      (hsign : SpellsSign s negative) (hwhole : SpellsWhole w ws) (hfraction : Grouped f fs)
      (hscale : SpellsScale e n) :
      SpellsFloat (s ++ (w ++ '.' :: (f ++ e)))
        ⟨negative, positional 10 (ws ++ fs), n - (fs.length : ℤ)⟩
  | scaled {s w ws e : List Char} {negative : Bool} {n : ℤ}
      (hsign : SpellsSign s negative) (hwhole : SpellsWhole w ws) (hscale : SpellsScale e n)
      (nonempty : e ≠ []) :
      SpellsFloat (s ++ (w ++ e)) ⟨negative, positional 10 ws, n⟩

/-- An integer has no fraction and no exponent. -/
inductive SpellsInteger : List Char → ℤ → Prop where
  | decimal {s w ws : List Char} {negative : Bool} (hsign : SpellsSign s negative)
      (hwhole : SpellsWhole w ws) :
      SpellsInteger (s ++ w) (if negative then -(positional 10 ws : ℤ) else positional 10 ws)

/-- A natural number has no sign, fraction or exponent. -/
def SpellsNatural (written : List Char) (number : ℕ) : Prop :=
  ∃ digits, SpellsWhole written digits ∧ positional 10 digits = number

/-- A character that does not follow the digits before the point, unless
something other than a decimal number is written. -/
def breaksNumber (c : Char) : Bool :=
  continuesDigits c || c == '-' || c == ':' || c == 'x' || c == 'o' || c == 'b'

/-- What follows the digits before the point of a number. -/
def FollowsWhole (tail : List Char) : Prop :=
  Stops breaksNumber tail

theorem FollowsWhole.stops {kind : Char → Bool} (htail : FollowsWhole tail)
    (hkind : ∀ c, kind c = true → breaksNumber c = true) : Stops kind tail := by
  intro c hc
  by_contra hnot
  rw [Bool.not_eq_false] at hnot
  exact absurd (hkind c hnot) (by simp [htail c hc])

theorem FollowsWhole.stops_digits (htail : FollowsWhole tail) : Stops continuesDigits tail :=
  htail.stops fun c hc => by simp [breaksNumber, hc]

theorem followsWhole_of_ends (hrest : Ends rest) : FollowsWhole rest :=
  hrest.stops (by simp [breaksNumber, continuesDigits, isDigit])

theorem followsWhole_of_scale (hscale : SpellsScale e n) (hrest : Ends rest) :
    FollowsWhole (e ++ rest) := by
  cases hscale with
  | none => exact followsWhole_of_ends hrest
  | exponent hmark =>
      refine Text.stops_cons.mpr ?_
      rcases hmark with rfl | rfl <;> simp [breaksNumber, continuesDigits, isDigit]

theorem followsWhole_point (tail : List Char) : FollowsWhole ('.' :: tail) :=
  Text.stops_cons.mpr (by simp [breaksNumber, continuesDigits, isDigit])

-- ================================================== no other kind of value

/-- A date begins with digits, and goes on with a hyphen. -/
theorem date?_eq_none (hstop : Stops isDigit rest ∨ Stops (· == '-') (rest.dropWhile isDigit)) :
    date? rest = none := by
  unfold date?
  split
  case h_1 y y₁ y₂ y₃ m m₁ d d₁ tail =>
    refine if_neg fun hdate => ?_
    simp only [isDate, List.all_cons, List.cons_append, List.nil_append, Bool.and_eq_true,
      List.all_nil] at hdate
    obtain ⟨⟨⟨⟨⟨hy, hy₁, hy₂, hy₃, -⟩, -⟩, -⟩, -⟩, -⟩ := hdate
    rcases hstop with hstop | hstop
    · simp [Text.stops_cons, hy] at hstop
    · rw [List.dropWhile_cons_of_pos hy, List.dropWhile_cons_of_pos hy₁,
        List.dropWhile_cons_of_pos hy₂, List.dropWhile_cons_of_pos hy₃] at hstop
      exact absurd (hstop '-' rfl) (by simp)
  case h_2 => rfl

/-- A time begins with digits, and goes on with a colon. -/
theorem time?_eq_none (hstop : Stops isDigit rest ∨ Stops (· == ':') (rest.dropWhile isDigit)) :
    time? rest = none := by
  unfold time?
  split
  case h_1 h h₁ m m₁ sec sec₁ tail =>
    refine if_neg fun htime => ?_
    simp only [isUpTo, List.all_cons, Bool.and_eq_true, List.all_nil] at htime
    obtain ⟨⟨⟨⟨hh, hh₁, -⟩, -⟩, -⟩, -⟩ := htime
    rcases hstop with hstop | hstop
    · simp [Text.stops_cons, hh] at hstop
    · rw [List.dropWhile_cons_of_pos hh, List.dropWhile_cons_of_pos hh₁] at hstop
      exact absurd (hstop ':' rfl) (by simp)
  case h_2 => rfl

theorem Grouped.dropWhile (hgrouped : Grouped w ws) (htail : FollowsWhole tail) :
    FollowsWhole ((w ++ tail).dropWhile isDigit) ∨
      ∃ more, (w ++ tail).dropWhile isDigit = '_' :: more := by
  induction hgrouped with
  | @one c hdigit =>
      have hstop : Stops isDigit tail :=
        htail.stops fun c hc => by simp [breaksNumber, continuesDigits, hc]
      refine Or.inl ?_
      rw [List.singleton_append, List.dropWhile_cons_of_pos hdigit, hstop.dropWhile]
      exact htail
  | next hdigit hmore ih =>
      rw [List.cons_append, List.dropWhile_cons_of_pos hdigit]
      exact ih
  | @under c cs ds hdigit hmore ih =>
      refine Or.inr ⟨cs ++ tail, ?_⟩
      rw [List.cons_append, List.dropWhile_cons_of_pos hdigit]
      rfl

/-- A number is neither a date nor a time. -/
theorem moment?_eq_none (hsign : SpellsSign s negative) (hwhole : SpellsWhole w ws)
    (htail : FollowsWhole tail) : moment? (s ++ (w ++ tail)) = none := by
  have hgrouped : Grouped w ws := by
    cases hwhole with
    | zero => exact .one rfl
    | other hgrouped => exact hgrouped
  have hstop {c : Char} (hc : breaksNumber c = true) (hother : c ≠ '_') :
      Stops (· == c) ((w ++ tail).dropWhile isDigit) := by
    rcases hgrouped.dropWhile htail with hfollows | ⟨more, hmore⟩
    · exact hfollows.stops fun c' hc' => beq_iff_eq.mp hc' ▸ hc
    · rw [hmore]
      exact Text.stops_cons.mpr (beq_eq_false_iff_ne.mpr hother.symm)
  have hnone : date? (s ++ (w ++ tail)) = none ∧ time? (s ++ (w ++ tail)) = none := by
    cases hsign with
    | none =>
        exact ⟨date?_eq_none (Or.inr (hstop (by simp [breaksNumber]) (by simp))),
          time?_eq_none (Or.inr (hstop (by simp [breaksNumber]) (by simp)))⟩
    | plus | minus =>
        exact ⟨date?_eq_none (Or.inl (Text.stops_cons.mpr rfl)),
          time?_eq_none (Or.inl (Text.stops_cons.mpr rfl))⟩
  unfold moment?
  rw [hnone.1, hnone.2]
  rfl

theorem special?_eq_none {c : Char} (hdigit : isDigit c = true) (rest : List Char) :
    special? negative (c :: rest) = none := by
  unfold special?
  split
  case h_1 htail => obtain ⟨rfl, -⟩ := List.cons.inj htail; simp [isDigit] at hdigit
  case h_2 htail => obtain ⟨rfl, -⟩ := List.cons.inj htail; simp [isDigit] at hdigit
  case h_3 => rfl

/-- Where digits stand after a sign, a decimal number is read. -/
theorem number?_eq (hsign : SpellsSign s negative) (hwhole : SpellsWhole w ws)
    (htail : FollowsWhole tail) :
    number? (s ++ (w ++ tail)) = decimal? negative (w ++ tail) := by
  obtain ⟨c, cs, hw, hdigit⟩ := hwhole.starts
  have hsigned := hsign.signed hdigit (cs ++ tail)
  rw [← List.cons_append, ← hw] at hsigned
  have hbase {mark : Char} (hmark : mark = 'x' ∨ mark = 'o' ∨ mark = 'b') (more : List Char) :
      s ++ (w ++ tail) ≠ '0' :: mark :: more := by
    intro hsame
    cases hsign with
    | plus => cases hsame
    | minus => cases hsame
    | none =>
        cases hwhole with
        | zero =>
            obtain ⟨-, htail'⟩ := List.cons.inj hsame
            change tail = mark :: more at htail'
            have hbreaks := Text.stops_cons.mp (htail' ▸ htail)
            rcases hmark with rfl | rfl | rfl <;> simp [breaksNumber] at hbreaks
        | other hgrouped hlead =>
            rw [hw] at hsame hlead
            obtain ⟨rfl, -⟩ := List.cons.inj hsame
            exact hlead rfl
  rw [number?, hsigned]
  · dsimp only
    rw [hw, List.cons_append, special?_eq_none hdigit]
    rfl
  · exact hbase (Or.inl rfl)
  · exact hbase (Or.inr (Or.inl rfl))
  · exact hbase (Or.inr (Or.inr rfl))

theorem text?_eq_none {c : Char} (hbasic : c ≠ '"') (hliteral : c ≠ '\'')
    (rest : List Char) : text? (c :: rest) = none := by
  unfold text?
  split
  case h_1 htail => exact absurd (List.cons.inj htail).1 hbasic
  case h_2 htail => exact absurd (List.cons.inj htail).1 hbasic
  case h_3 htail => exact absurd (List.cons.inj htail).1 hliteral
  case h_4 htail => exact absurd (List.cons.inj htail).1 hliteral
  case h_5 => rfl

/-- What begins like a number is a moment or a number. -/
theorem value?_eq_moment?_or {c : Char} (hc : c = '+' ∨ c = '-' ∨ isDigit c = true)
    (rest : List Char) (depth : ℕ) :
    value? depth (c :: rest)
      = ((moment? (c :: rest)).map fun rest => (.moment, rest)).or (number? (c :: rest)) := by
  have hne {mark : Char} (hmark : mark ≠ '+' ∧ mark ≠ '-' ∧ isDigit mark = false) :
      c ≠ mark := by
    rintro rfl
    rcases hc with h | h | h
    · exact hmark.1 h
    · exact hmark.2.1 h
    · rw [hmark.2.2] at h; cases h
  have hscalar : value? depth (c :: rest) = scalarValue? (c :: rest) := by
    rw [value?]
    · rintro _ _ - htail
      exact hne (by simp [isDigit]) (List.cons.inj htail).1
    · rintro _ _ - htail
      exact hne (by simp [isDigit]) (List.cons.inj htail).1
  rw [hscalar, scalarValue?, text?_eq_none (hne (by simp [isDigit])) (hne (by simp [isDigit]))]
  · rfl
  · rintro _ htail
    exact hne (by simp [isDigit]) (List.cons.inj htail).1
  · rintro _ htail
    exact hne (by simp [isDigit]) (List.cons.inj htail).1

theorem value?_eq_number? {c : Char} (hc : c = '+' ∨ c = '-' ∨ isDigit c = true)
    (hmoment : moment? (c :: rest) = none) (depth : ℕ) :
    value? depth (c :: rest) = number? (c :: rest) := by
  rw [value?_eq_moment?_or hc, hmoment]
  rfl

theorem value?_eq_decimal? (hsign : SpellsSign s negative) (hwhole : SpellsWhole w ws)
    (htail : FollowsWhole tail) (depth : ℕ) :
    value? depth (s ++ (w ++ tail)) = decimal? negative (w ++ tail) := by
  obtain ⟨c, cs, hw, hdigit⟩ := hwhole.starts
  have hnumber := number?_eq hsign hwhole htail
  have hmoment := moment?_eq_none hsign hwhole htail
  rw [← hnumber]
  cases hsign with
  | none =>
      rw [hw] at hmoment ⊢
      exact value?_eq_number? (Or.inr (Or.inr hdigit)) hmoment depth
  | plus => exact value?_eq_number? (Or.inl rfl) hmoment depth
  | minus => exact value?_eq_number? (Or.inr (Or.inl rfl)) hmoment depth

-- ================================================================ values

/-- An integer that fits reads back where a value may end. -/
theorem SpellsInteger.value? (hspelled : SpellsInteger written n)
    (hfits : -9223372036854775808 ≤ n ∧ n ≤ 9223372036854775807) (hrest : Ends rest)
    (depth : ℕ) : value? depth (written ++ rest) = some (.integer n, rest) := by
  cases hspelled with
  | @decimal s w ws negative hsign hwhole =>
      have htail := followsWhole_of_ends hrest
      have hinteger : integer? (if negative then -(positional 10 ws : ℤ) else positional 10 ws)
          = some (.integer (if negative then -(positional 10 ws : ℤ) else positional 10 ws)) :=
        if_pos hfits
      rw [List.append_assoc, value?_eq_decimal? hsign hwhole htail depth, decimal?,
        hwhole.whole? htail.stops_digits]
      cases rest with
      | nil => exact congrArg (Option.bind · _) hinteger
      | cons c rest =>
          have hplain : Stops (fun c => c == '.' || c == 'e' || c == 'E') (c :: rest) :=
            hrest.stops (by simp)
          have hc := Text.stops_cons.mp hplain
          simp only [Bool.or_eq_false_iff, beq_eq_false_iff_ne] at hc
          obtain ⟨⟨hpoint, hsmall⟩, hbig⟩ := hc
          simp only [Option.bind_eq_bind, Option.bind_some]
          rw [if_neg (not_or.mpr ⟨hsmall, hbig⟩)]
          exact congrArg (Option.bind · _) hinteger

/-- A natural number that fits reads back where a value may end. -/
theorem SpellsNatural.value? {number : ℕ} (hspelled : SpellsNatural written number)
    (hfits : number ≤ 9223372036854775807) (hrest : Ends rest) (depth : ℕ) :
    value? depth (written ++ rest) = some (.integer number, rest) := by
  obtain ⟨ds, hwhole, rfl⟩ := hspelled
  exact (SpellsInteger.decimal .none hwhole).value? (by simp; omega) hrest depth

theorem float?_eq (hfits : d.toBinary64 ≠ .infinity false) :
    float? d = some (.float d.toBinary64) :=
  if_neg hfits

/-- A float that is not too large reads back where a value may end. -/
theorem SpellsFloat.value? (hspelled : SpellsFloat written d)
    (hfits : d.toBinary64 ≠ .infinity false) (hrest : Ends rest) (depth : ℕ) :
    value? depth (written ++ rest) = some (.float d.toBinary64, rest) := by
  cases hspelled with
  | @pointed s w ws f fs e negative n hsign hwhole hfraction hscale =>
      have hfollows := followsWhole_of_scale hscale hrest
      have hpoint := followsWhole_point (f ++ (e ++ rest))
      rw [List.append_assoc, List.append_assoc, List.cons_append, List.append_assoc,
        value?_eq_decimal? hsign hwhole hpoint, decimal?, hwhole.whole? hpoint.stops_digits]
      simp only [Option.bind_eq_bind, Option.bind_some]
      rw [hfraction.digits? hfollows.stops_digits]
      simp only [Option.bind_some]
      rw [hscale.scale? hrest]
      simp only [Option.bind_some]
      rw [float?_eq hfits]
      rfl
  | @scaled s w ws e negative n hsign hwhole hscale nonempty =>
      have hfollows := followsWhole_of_scale hscale hrest
      rw [List.append_assoc, List.append_assoc, value?_eq_decimal? hsign hwhole hfollows,
        decimal?, hwhole.whole? hfollows.stops_digits]
      have hread := hscale.scale? hrest
      simp only [Option.bind_eq_bind, Option.bind_some]
      cases hscale with
      | none => exact absurd rfl nonempty
      | @exponent mark s' f fs negative' hmark hsign' hdigits =>
          rw [List.cons_append] at hread ⊢
          split
          case h_1 htail =>
            obtain ⟨rfl, -⟩ := List.cons.inj htail
            rcases hmark with h | h <;> cases h
          case h_2 c' rest' _ htail =>
            rw [← (List.cons.inj htail).1, if_pos hmark, hread]
            simp only [Option.bind_some]
            rw [float?_eq hfits]
            rfl
          case h_3 htail => cases htail

-- ============================================== every number can be written

/-- The decimal digits of a number may stand before a point, or alone. -/
theorem spellsWhole_decimalDigits (n : ℕ) :
    SpellsWhole (decimalDigits n) (decimalDigits n) := by
  rcases Text.decimalDigits_lead n with hzero | hlead
  · rw [hzero]
    exact .zero
  · exact .other (.of_digits (Text.decimalDigits_ne_nil n)
      fun c hmem => Text.isDigit_of_mem_decimalDigits hmem) hlead

theorem spellsNatural_decimalDigits (n : ℕ) : SpellsNatural (decimalDigits n) n :=
  ⟨_, spellsWhole_decimalDigits n, Text.positional_decimalDigits n⟩

/-- Every finite number can be written. -/
theorem exists_spellsFloat {x : Binary64} (hfinite : x.isFinite = true) :
    ∃ written d, SpellsFloat written d ∧ Binary64.ofRat d.negative d.toRat = x := by
  obtain ⟨negative, digits, places, hx⟩ := Decimal.exists_ofRat_toRat hfinite
  obtain ⟨sign, hsign⟩ : ∃ sign, SpellsSign sign negative := by
    cases negative
    · exact ⟨_, .none⟩
    · exact ⟨_, .minus⟩
  have hscale := SpellsScale.exponent (.inl rfl) .minus
    (Grouped.of_digits (Text.decimalDigits_ne_nil places)
      fun c hmem => Text.isDigit_of_mem_decimalDigits hmem)
  have hspelled := SpellsFloat.scaled hsign (spellsWhole_decimalDigits digits) hscale
    (List.cons_ne_nil _ _)
  simp only [if_true, Text.positional_decimalDigits] at hspelled
  exact ⟨_, _, hspelled, hx⟩

end Turnstile.Toml
