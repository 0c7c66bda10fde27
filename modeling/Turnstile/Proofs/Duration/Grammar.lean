/-
The grammar of durations, and that the reader accepts nothing else.

`SpellsNumber`, `TimeUnit.names` and `SpellsTerms` say how numbers, units
and sequences of terms are written, without a reader. A number is made of
numeric characters and is read up to where they end (`mantissa?_append`), and a
name is made of others, so wherever a term may begin there is one way only to cut
off a number and a name: the longest run of each.
That is one round of the reader (`round?`), and a round succeeds exactly on a
term with nothing numeric left behind it (`round?_eq_some_iff`). By induction
on the terms the reader accepts exactly what spells terms
(`terms?_eq_some_iff`).

A round takes at least a number away, so the scan ends after as many rounds
as the text has characters (`Scans.taken`, `scan_ends`). Whether a round succeeds
is decided by the text between its two cuts, which are made where a character
of the other kind begins (`exists_cuts`).

Chain (duration): Text/Runs.lean below; Duration/Total.lean and
Settings/Numerals.lean above.
-/
import Mathlib
import Turnstile.Duration.Text
import Turnstile.Proofs.Text.Runs

namespace Turnstile.Duration

open Text (isDigit positional Stops CutsAt)
open Decimal (Numeral.fixed? Numeral.mantissa? Numeral.spanDigits Numeral.assemble)

variable {c : Char} {cs number name rest last : List Char} {d : Decimal}
  {unit : TimeUnit} {t : Term} {ts : List Term}

-- ======================================================== the grammar

/-- A number is a string of digits, with at most one point before, between
or after them. -/
inductive SpellsNumber : List Char → Decimal → Prop where
  | whole {digits : List Char} (nonempty : digits ≠ [])
      (digital : ∀ c ∈ digits, isDigit c = true) :
      SpellsNumber digits ⟨false, positional 10 digits, 0⟩
  | pointed {whole fraction : List Char} (nonempty : whole ++ fraction ≠ [])
      (digital : ∀ c ∈ whole ++ fraction, isDigit c = true) :
      SpellsNumber (whole ++ '.' :: fraction)
        ⟨false, positional 10 (whole ++ fraction), -(fraction.length : ℤ)⟩

/-- The names of a unit. -/
def TimeUnit.names : TimeUnit → List (List Char)
  | .nanosecond => [['n', 's']]
  | .microsecond => [['u', 's'], ['\u00b5', 's']]
  | .millisecond => [['m', 's']]
  | .second => [['s']]
  | .minute => [['m']]
  | .hour => [['h']]

/-- Terms are written one after the other, each as its number and a name of
its unit. -/
inductive SpellsTerms : List Char → List Term → Prop where
  | nil : SpellsTerms [] []
  | cons {number name rest : List Char} {t : Term} {ts : List Term}
      (hnumber : SpellsNumber number t.amount) (hname : name ∈ t.unit.names)
      (hrest : SpellsTerms rest ts) :
      SpellsTerms (number ++ (name ++ rest)) (t :: ts)

/-- A duration is a single zero, or one or more terms. -/
inductive Spells : List Char → List Term → Prop where
  | zero : Spells ['0'] []
  | terms {cs : List Char} {ts : List Term} (nonempty : ts ≠ [])
      (hterms : SpellsTerms cs ts) : Spells cs ts

-- ============================================================ numbers

theorem isDigit_point : isDigit '.' = false := by decide

theorem stops_point : Stops isDigit ('.' :: rest) :=
  Text.stops_cons.mpr isDigit_point

/-- In front of where the reader stops there is a number. -/
theorem mantissa?_spells {whole fraction : List Char}
    (hread : Numeral.mantissa? cs = some (whole, fraction, rest)) :
    ∃ number, cs = number ++ rest
      ∧ SpellsNumber number (Numeral.assemble false whole fraction 0) := by
  have hsplit := List.takeWhile_append_dropWhile (p := isDigit) (l := cs)
  have hwhole : ∀ c ∈ cs.takeWhile isDigit, isDigit c = true :=
    fun c hc => List.mem_takeWhile_imp hc
  unfold Numeral.mantissa? Numeral.spanDigits at hread
  dsimp only at hread
  split at hread
  case h_1 tail hpoint =>
    -- a point stands after the first run, and a second run after the point
    have htail := List.takeWhile_append_dropWhile (p := isDigit) (l := tail)
    obtain ⟨nonempty, hparts⟩ := Option.ite_none_left_eq_some.mp hread
    cases hparts
    have hdigital : ∀ c ∈ cs.takeWhile isDigit ++ tail.takeWhile isDigit,
        isDigit c = true := by
      intro c hc
      exact (List.mem_append.mp hc).elim (hwhole c) List.mem_takeWhile_imp
    refine ⟨cs.takeWhile isDigit ++ '.' :: tail.takeWhile isDigit, ?_, ?_⟩
    · rw [List.append_assoc, List.cons_append, htail, ← hpoint, hsplit]
    · unfold Numeral.assemble
      rw [zero_sub]
      exact .pointed nonempty hdigital
  case h_2 =>
    obtain ⟨nonempty, hparts⟩ := Option.ite_none_left_eq_some.mp hread
    cases hparts
    refine ⟨cs.takeWhile isDigit, hsplit.symm, ?_⟩
    unfold Numeral.assemble
    rw [List.append_nil] at nonempty ⊢
    exact .whole nonempty hwhole

/-- A number is read up to a text that does not go on with it. -/
theorem mantissa?_append (hnumber : SpellsNumber number d)
    (hrest : Stops isNumeric rest) :
    ∃ whole fraction, Numeral.mantissa? (number ++ rest) = some (whole, fraction, rest)
      ∧ d = Numeral.assemble false whole fraction 0 := by
  have hdigit : Stops isDigit rest := by
    intro c hc
    exact (Bool.or_eq_false_iff.mp (hrest c hc)).1
  cases hnumber with
  | whole nonempty digital =>
      refine ⟨number, [], ?_, ?_⟩
      · unfold Numeral.mantissa? Numeral.spanDigits
        dsimp only
        rw [Text.takeWhile_run digital hdigit, Text.dropWhile_run digital hdigit]
        split
        case h_1 => exact absurd (Text.stops_cons.mp hrest) (by decide)
        case h_2 => rw [List.append_nil, if_neg nonempty]
      · simp [Numeral.assemble]
  | @pointed whole fraction nonempty digital =>
      have hwhole : ∀ c ∈ whole, isDigit c = true :=
        fun c hc => digital c (List.mem_append_left _ hc)
      have hfraction : ∀ c ∈ fraction, isDigit c = true :=
        fun c hc => digital c (List.mem_append_right _ hc)
      refine ⟨whole, fraction, ?_, ?_⟩
      · unfold Numeral.mantissa? Numeral.spanDigits
        dsimp only
        rw [List.append_assoc, List.cons_append, Text.takeWhile_run hwhole stops_point,
          Text.dropWhile_run hwhole stops_point]
        show (if whole ++ (fraction ++ rest).takeWhile isDigit = [] then none
          else some (whole, (fraction ++ rest).takeWhile isDigit,
            (fraction ++ rest).dropWhile isDigit)) = _
        rw [Text.takeWhile_run hfraction hdigit, Text.dropWhile_run hfraction hdigit,
          if_neg nonempty]
      · unfold Numeral.assemble
        rw [zero_sub]

/-- What the reader takes for a number without sign and exponent is what
spells one. -/
theorem fixed?_eq_some_iff : Numeral.fixed? cs = some d ↔ SpellsNumber cs d := by
  unfold Numeral.fixed?
  constructor
  · intro hfixed
    split at hfixed
    case h_1 whole fraction hread =>
      obtain ⟨number, rfl, hspelled⟩ := mantissa?_spells hread
      rw [List.append_nil]
      exact Option.some.inj hfixed ▸ hspelled
    case h_2 => cases hfixed
  · intro hspelled
    obtain ⟨whole, fraction, hread, rfl⟩ := mantissa?_append hspelled Text.stops_nil
    rw [List.append_nil] at hread
    rw [hread]

/-- A number is not empty and all its characters are numeric. -/
theorem SpellsNumber.numeric (hnumber : SpellsNumber number d) :
    number ≠ [] ∧ ∀ c ∈ number, isNumeric c = true := by
  cases hnumber with
  | whole nonempty digital =>
      refine ⟨nonempty, fun c hc => ?_⟩
      simp [isNumeric, digital c hc]
  | pointed nonempty digital =>
      refine ⟨by simp, fun c hc => ?_⟩
      rw [List.mem_append, List.mem_cons] at hc
      rcases hc with hc | rfl | hc
      · simp [isNumeric, digital c (List.mem_append_left _ hc)]
      · decide
      · simp [isNumeric, digital c (List.mem_append_right _ hc)]

-- ============================================================== units

theorem ofName?_eq_some_iff : TimeUnit.ofName? name = some unit ↔ name ∈ unit.names := by
  constructor
  · intro hname
    unfold TimeUnit.ofName? at hname
    split at hname <;> cases hname <;> simp [TimeUnit.names]
  · intro hname
    cases unit <;>
      simp only [TimeUnit.names, List.mem_cons, List.not_mem_nil, or_false] at hname
    case microsecond => rcases hname with rfl | rfl <;> rfl
    all_goals subst hname; rfl

/-- No name is empty, and none has a numeric character. -/
theorem TimeUnit.names_not_numeric (hname : name ∈ unit.names) :
    name ≠ [] ∧ ∀ c ∈ name, isNumeric c = false := by
  have hall : ∀ name ∈ unit.names, name ≠ [] ∧ ∀ c ∈ name, isNumeric c = false := by
    cases unit <;> simp [TimeUnit.names, isNumeric, isDigit]
  exact hall name hname

-- ========================================================= one round

/-- One round of the reader: a number, a name, and what is left. -/
def round? (cs : List Char) : Option (Term × List Char) := do
  let amount ← Numeral.fixed? (cs.takeWhile isNumeric)
  let rest := cs.dropWhile isNumeric
  let unit ← TimeUnit.ofName? (rest.takeWhile (!isNumeric ·))
  return (⟨amount, unit⟩, rest.dropWhile (!isNumeric ·))

/-- The reader goes on in rounds until nothing is left. -/
theorem terms?_eq (cs : List Char) :
    terms? cs = if cs = [] then some []
      else (round? cs).bind fun (t, rest) => (terms? rest).map (t :: ·) := by
  rw [terms?]
  by_cases hempty : cs = []
  · rw [if_pos hempty, if_pos hempty]
  rw [if_neg hempty, if_neg hempty]
  dsimp only
  split
  case isTrue hnone =>
    simp [round?, hnone, Numeral.fixed?, Numeral.mantissa?, Numeral.spanDigits]
  case isFalse hsome =>
    simp only [round?, Option.bind_eq_bind, Option.bind_assoc, Option.pure_def,
      Option.bind_some, Option.map_eq_bind]
    rfl

/-- A round succeeds on a term with no part of a name left behind it. -/
theorem round?_eq_some_iff :
    round? cs = some (t, rest)
      ↔ ∃ number name, cs = number ++ (name ++ rest)
        ∧ SpellsNumber number t.amount ∧ name ∈ t.unit.names
        ∧ Stops (!isNumeric ·) rest := by
  constructor
  · intro hround
    simp only [round?, Option.bind_eq_bind, Option.bind_eq_some_iff, Option.pure_def,
      Option.some.injEq, Prod.mk.injEq] at hround
    obtain ⟨amount, hamount, unit, hunit, rfl, rfl⟩ := hround
    refine ⟨_, _, ?_, fixed?_eq_some_iff.mp hamount, ofName?_eq_some_iff.mp hunit,
      Text.stops_dropWhile _ _⟩
    rw [List.takeWhile_append_dropWhile, List.takeWhile_append_dropWhile]
  · rintro ⟨number, name, rfl, hnumber, hname, hstop⟩
    obtain ⟨-, hnumeric⟩ := hnumber.numeric
    obtain ⟨hnonempty, hletters⟩ := TimeUnit.names_not_numeric hname
    have hletters' : ∀ c ∈ name, (!isNumeric c) = true :=
      fun c hc => by simp [hletters c hc]
    have hbreak : Stops isNumeric (name ++ rest) := by
      cases name with
      | nil => exact absurd rfl hnonempty
      | cons c name => exact Text.stops_cons.mpr (hletters c (List.mem_cons_self ..))
    simp only [round?, Text.takeWhile_run hnumeric hbreak,
      Text.dropWhile_run hnumeric hbreak, Text.takeWhile_run hletters' hstop,
      Text.dropWhile_run hletters' hstop, fixed?_eq_some_iff.mpr hnumber,
      ofName?_eq_some_iff.mpr hname]
    rfl

/-- A round cuts off the longest run of numeric characters and then the longest run
of others, and succeeds exactly if these are a number and a name of a unit. -/
theorem exists_cuts (cs : List Char) :
    ∃ number name rest, cs = number ++ (name ++ rest)
      ∧ CutsAt isNumeric cs (String.ofList number).rawEndPos
      ∧ CutsAt (!isNumeric ·) (name ++ rest) (String.ofList name).rawEndPos
      ∧ ∀ t next, round? cs = some (t, next)
        ↔ SpellsNumber number t.amount ∧ name ∈ t.unit.names ∧ next = rest := by
  let rest := cs.dropWhile isNumeric
  have hnumber : cs = cs.takeWhile isNumeric ++ rest :=
    List.takeWhile_append_dropWhile.symm
  have hname : rest = rest.takeWhile (!isNumeric ·) ++ rest.dropWhile (!isNumeric ·) :=
    List.takeWhile_append_dropWhile.symm
  have hcut (kind : Char → Bool) (cs : List Char) :
      CutsAt kind (cs.takeWhile kind ++ cs.dropWhile kind)
        (String.ofList (cs.takeWhile kind)).rawEndPos :=
    Text.cutsAt_run (fun c hc => List.mem_takeWhile_imp hc) (Text.stops_dropWhile kind cs)
  refine ⟨cs.takeWhile isNumeric, rest.takeWhile (!isNumeric ·),
    rest.dropWhile (!isNumeric ·), ?_, ?_, hcut _ rest, fun t next => ?_⟩
  · rw [← hname]
    exact hnumber
  · have hfirst := hcut isNumeric cs
    rwa [List.takeWhile_append_dropWhile] at hfirst
  · rw [← fixed?_eq_some_iff, ← ofName?_eq_some_iff]
    simp only [round?, Option.bind_eq_bind, Option.bind_eq_some_iff, Option.pure_def,
      Option.some.injEq, Prod.mk.injEq]
    constructor
    · rintro ⟨amount, hamount, unit, hunit, rfl, rfl⟩
      exact ⟨hamount, hunit, rfl⟩
    · rintro ⟨hamount, hunit, rfl⟩
      exact ⟨_, hamount, _, hunit, rfl, rfl⟩

/-- Terms begin with a numeric character. -/
theorem SpellsTerms.stops (hterms : SpellsTerms cs ts) :
    Stops (!isNumeric ·) cs := by
  cases hterms with
  | nil => exact Text.stops_nil
  | @cons number name rest t ts hnumber hname hrest =>
      obtain ⟨hnonempty, hnumeric⟩ := hnumber.numeric
      cases number with
      | nil => exact absurd rfl hnonempty
      | cons c number =>
          refine Text.stops_cons.mpr ?_
          simp [hnumeric c (List.mem_cons_self ..)]

-- =========================================================== all rounds

/-- The reader accepts exactly what spells terms. -/
theorem terms?_eq_some_iff : terms? cs = some ts ↔ SpellsTerms cs ts := by
  constructor
  · intro hterms
    induction ts generalizing cs with
    | nil =>
        rw [terms?_eq] at hterms
        split at hterms
        case isTrue hempty => exact hempty ▸ .nil
        case isFalse =>
          obtain ⟨⟨t, rest⟩, -, hmore⟩ := Option.bind_eq_some_iff.mp hterms
          simp at hmore
    | cons t ts ih =>
        rw [terms?_eq] at hterms
        split at hterms
        case isTrue => cases hterms
        case isFalse =>
          obtain ⟨⟨t', rest⟩, hround, hmore⟩ := Option.bind_eq_some_iff.mp hterms
          obtain ⟨ts', hrest, hcons⟩ := Option.map_eq_some_iff.mp hmore
          cases hcons
          obtain ⟨number, name, rfl, hnumber, hname, -⟩ := round?_eq_some_iff.mp hround
          exact .cons hnumber hname (ih hrest)
  · intro hterms
    induction hterms with
    | nil => rw [terms?_eq, if_pos rfl]
    | @cons number name rest t ts hnumber hname hrest ih =>
        have hround : round? (number ++ (name ++ rest)) = some (t, rest) :=
          round?_eq_some_iff.mpr ⟨number, name, rfl, hnumber, hname, hrest.stops⟩
        have hnonempty : number ++ (name ++ rest) ≠ [] := by
          simp [hnumber.numeric.1]
        rw [terms?_eq, if_neg hnonempty, hround]
        exact congrArg (Option.map (t :: ·)) ih

/-- Reading these terms, one a round, takes the scan from the text to what is
left of it. -/
inductive Scans : List Char → List Term → List Char → Prop where
  | start (cs : List Char) : Scans cs [] cs
  | round {cs rest last : List Char} {t : Term} {ts : List Term}
      (hround : round? cs = some (t, rest)) (hmore : Scans rest ts last) :
      Scans cs (t :: ts) last

/-- The scan takes away a part of the text that is at least as long as the
number of rounds. -/
theorem Scans.taken (hscan : Scans cs ts last) :
    ∃ taken, cs = taken ++ last ∧ ts.length ≤ taken.length := by
  induction hscan with
  | start cs => exact ⟨[], rfl, Nat.le_refl _⟩
  | @round cs rest last t ts hround hmore ih =>
      obtain ⟨taken, rfl, hlength⟩ := ih
      obtain ⟨number, name, rfl, hnumber, -, -⟩ := round?_eq_some_iff.mp hround
      have hpos := List.length_pos_iff.mpr hnumber.numeric.1
      refine ⟨number ++ (name ++ taken), by simp, ?_⟩
      simp only [List.length_append, List.length_cons]
      omega

/-- The scan ends: with nothing left and the terms read, or at a round that
fails. -/
theorem scan_ends (cs : List Char) :
    ∃ ts last, Scans cs ts last
      ∧ (last = [] ∧ terms? cs = some ts
        ∨ last ≠ [] ∧ round? last = none ∧ terms? cs = none) := by
  by_cases hempty : cs = []
  · exact ⟨[], [], hempty ▸ .start _, Or.inl ⟨rfl, by rw [terms?_eq, if_pos hempty]⟩⟩
  cases hround : round? cs with
  | none =>
      refine ⟨[], cs, .start _, Or.inr ⟨hempty, hround, ?_⟩⟩
      rw [terms?_eq, if_neg hempty, hround]
      rfl
  | some step =>
      obtain ⟨t, rest⟩ := step
      have hshorter : rest.length < cs.length := by
        obtain ⟨taken, rfl, hlength⟩ := (Scans.round hround (.start rest)).taken
        simp only [List.length_append, List.length_singleton] at hlength ⊢
        omega
      obtain ⟨ts, last, hscan, hend⟩ := scan_ends rest
      have hterms : terms? cs = (terms? rest).map (t :: ·) := by
        rw [terms?_eq, if_neg hempty, hround]
        rfl
      refine ⟨t :: ts, last, .round hround hscan, ?_⟩
      rw [hterms]
      rcases hend with ⟨hlast, hrest⟩ | ⟨hlast, hfail, hrest⟩
      · exact Or.inl ⟨hlast, by rw [hrest]; rfl⟩
      · exact Or.inr ⟨hlast, hfail, by rw [hrest]; rfl⟩
termination_by cs.length

end Turnstile.Duration
