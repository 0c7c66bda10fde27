/-
Which texts are values.

The reader defines what a value is (`Reads`). Here stands a grammar of values beside
it, which is not told in its terms: booleans, numbers, strings, dates and times,
arrays, and tables in braces whose keys begin differently (`SpellsValue`). What it
describes is read for what it says (`SpellsValue.reads`), so a text need not be run
through the reader to be known as a value.

Keys that begin differently never disturb each other, whatever stands under them:
pairs and headers with such keys always make a table (`Entries.defineAll_distinct`,
`Step.run_of_distinct`).

Chain (toml): Written.lean and Steps.lean below; Settings/Distinct.lean above.
-/
import Mathlib
import Turnstile.Proofs.Toml.Steps
import Turnstile.Proofs.Toml.Written

namespace Turnstile.Toml

open Text (isDigit positional Stops)

variable {written text rest cs : List Char} {n width depth : ℕ}

-- ====================================================== dates and times

/-- So many digits, and the number that they spell. -/
structure SpellsFigures (width : ℕ) (cs : List Char) (n : ℕ) : Prop where
  width : cs.length = width
  digits : ∀ c ∈ cs, isDigit c = true
  value : positional 10 cs = n

/-- A day of the calendar, as year, month and day. -/
inductive SpellsDate : List Char → Prop where
  | day {year month day : ℕ} {y m d : List Char} (hyear : SpellsFigures 4 y year)
      (hmonth : SpellsFigures 2 m month) (hday : SpellsFigures 2 d day)
      (hmonths : 1 ≤ month ∧ month ≤ 12) (hdays : 1 ≤ day ∧ day ≤ daysIn year month) :
      SpellsDate (y ++ '-' :: (m ++ '-' :: d))

/-- Digits after a point, or nothing. -/
inductive SpellsFraction : List Char → Prop where
  | none : SpellsFraction []
  | digits {ds : List Char} (nonempty : ds ≠ []) (hdigits : ∀ c ∈ ds, isDigit c = true) :
      SpellsFraction ('.' :: ds)

/-- A time of day, in hours, minutes and seconds. -/
inductive SpellsTime : List Char → Prop where
  | time {hour minute second : ℕ} {h m s fraction : List Char}
      (hhour : SpellsFigures 2 h hour) (hminute : SpellsFigures 2 m minute)
      (hsecond : SpellsFigures 2 s second) (hhours : hour ≤ 23) (hminutes : minute ≤ 59)
      (hseconds : second ≤ 60) (hfraction : SpellsFraction fraction) :
      SpellsTime (h ++ ':' :: (m ++ ':' :: (s ++ fraction)))

/-- An offset from universal time, or none. -/
inductive SpellsOffset : List Char → Prop where
  | none : SpellsOffset []
  | zero {mark : Char} (hmark : mark = 'Z' ∨ mark = 'z') : SpellsOffset [mark]
  | hours {sign : Char} {hour minute : ℕ} {h m : List Char} (hsign : sign = '+' ∨ sign = '-')
      (hhour : SpellsFigures 2 h hour) (hminute : SpellsFigures 2 m minute)
      (hhours : hour ≤ 23) (hminutes : minute ≤ 59) : SpellsOffset (sign :: (h ++ ':' :: m))

/-- A date, a time, or both. -/
inductive SpellsMoment : List Char → Prop where
  | date {date : List Char} (hdate : SpellsDate date) : SpellsMoment date
  | time {time : List Char} (htime : SpellsTime time) : SpellsMoment time
  | both {date time offset : List Char} {mark : Char} (hdate : SpellsDate date)
      (hmark : mark = 'T' ∨ mark = 't' ∨ mark = ' ') (htime : SpellsTime time)
      (hoffset : SpellsOffset offset) : SpellsMoment (date ++ mark :: (time ++ offset))

theorem SpellsFigures.two (hfigures : SpellsFigures 2 cs n) :
    ∃ c c', cs = [c, c'] ∧ isDigit c = true ∧ isDigit c' = true := by
  obtain ⟨c, c', rfl⟩ := List.length_eq_two.mp hfigures.width
  exact ⟨c, c', rfl, hfigures.digits c (by simp), hfigures.digits c' (by simp)⟩

theorem SpellsFigures.isUpTo {last : ℕ} (hfigures : SpellsFigures width cs n) (hlast : n ≤ last) :
    isUpTo last cs = true := by
  obtain ⟨-, hdigits, rfl⟩ := hfigures
  rw [Toml.isUpTo, Bool.and_eq_true, List.all_eq_true, decide_eq_true_eq]
  exact ⟨hdigits, hlast⟩

/-- A date is read to its end. -/
theorem SpellsDate.date? (hdate : SpellsDate written) (rest : List Char) :
    date? (written ++ rest) = some rest := by
  cases hdate with
  | @day year month day y m d hyear hmonth hday hmonths hdays =>
      have hdate : isDate y m d = true := by
        simpa [isDate, hyear.value, hmonth.value, hday.value, hmonths, hdays]
          using ⟨hyear.digits, hmonth.digits, hday.digits⟩
      obtain ⟨m₀, m₁, rfl⟩ := List.length_eq_two.mp hmonth.width
      obtain ⟨d₀, d₁, rfl⟩ := List.length_eq_two.mp hday.width
      obtain ⟨y₀, more, rfl⟩ := List.exists_cons_of_length_eq_add_one hyear.width
      obtain ⟨y₁, y₂, y₃, rfl⟩ := List.length_eq_three.mp (Nat.succ.inj hyear.width)
      exact if_pos hdate

/-- A fraction is skipped, where neither digits nor a point may follow. -/
theorem SpellsFraction.skipFraction (hfraction : SpellsFraction written)
    (hrest : Stops (fun c => isDigit c || c == '.') rest) :
    skipFraction (written ++ rest) = rest := by
  cases hfraction with
  | none =>
      rw [List.nil_append, Toml.skipFraction]
      rintro c more rfl
      have hpoint := Text.stops_cons.mp hrest
      simp at hpoint
  | @digits ds nonempty hdigits =>
      obtain ⟨c, ds, rfl⟩ := List.exists_cons_of_ne_nil nonempty
      obtain ⟨hfirst, hmore⟩ := List.forall_mem_cons.mp hdigits
      have hstops : Stops isDigit rest :=
        fun c hc => (Bool.or_eq_false_iff.mp (hrest c hc)).1
      show (if isDigit c then (ds ++ rest).dropWhile isDigit else _) = _
      rw [if_pos hfirst, Text.dropWhile_run hmore hstops]

/-- A time is read to its end, where neither digits nor a point may follow. -/
theorem SpellsTime.time? (htime : SpellsTime written)
    (hrest : Stops (fun c => isDigit c || c == '.') rest) :
    time? (written ++ rest) = some rest := by
  cases htime with
  | @time hour minute second h m s fraction hhour hminute hsecond hhours hminutes hseconds
      hfraction =>
      have hfits : (isUpTo 23 h && isUpTo 59 m && isUpTo 60 s) = true := by
        rw [hhour.isUpTo hhours, hminute.isUpTo hminutes, hsecond.isUpTo hseconds]
        rfl
      obtain ⟨h₀, h₁, rfl⟩ := List.length_eq_two.mp hhour.width
      obtain ⟨m₀, m₁, rfl⟩ := List.length_eq_two.mp hminute.width
      obtain ⟨s₀, s₁, rfl⟩ := List.length_eq_two.mp hsecond.width
      refine (if_pos hfits).trans ?_
      exact congrArg some (hfraction.skipFraction hrest)

theorem ne_cons_of_ends {c : Char} (hrest : Ends rest) (hc : isEnd c = false)
    (more : List Char) : rest ≠ c :: more := by
  rintro rfl
  have hend := Text.stops_cons.mp hrest
  rw [hc] at hend
  cases hend

/-- An offset is skipped where a value may end. -/
theorem SpellsOffset.skipOffset (hoffset : SpellsOffset written) (hrest : Ends rest) :
    skipOffset (written ++ rest) = rest := by
  cases hoffset with
  | none =>
      rw [List.nil_append, Toml.skipOffset]
      all_goals exact fun _ h => ne_cons_of_ends hrest (by simp [isEnd]) _ h
  | zero hmark => rcases hmark with rfl | rfl <;> rfl
  | @hours sign hour minute h m hsign hhour hminute hhours hminutes =>
      have hfits : (isUpTo 23 h && isUpTo 59 m) = true := by
        rw [hhour.isUpTo hhours, hminute.isUpTo hminutes]
        rfl
      obtain ⟨h₀, h₁, rfl⟩ := List.length_eq_two.mp hhour.width
      obtain ⟨m₀, m₁, rfl⟩ := List.length_eq_two.mp hminute.width
      have hoffset : offset? (h₀ :: h₁ :: ':' :: m₀ :: m₁ :: rest) = some rest := if_pos hfits
      rcases hsign with rfl | rfl <;> exact congrArg (Option.getD · _) hoffset

/-- After a time an offset may follow, or a value end. -/
theorem SpellsOffset.stops (hoffset : SpellsOffset written) (hrest : Ends rest) :
    Stops (fun c => isDigit c || c == '.') (written ++ rest) := by
  cases hoffset with
  | none => exact hrest.stops (by simp [isDigit])
  | zero hmark =>
      refine Text.stops_cons.mpr ?_
      rcases hmark with rfl | rfl <;> simp [isDigit]
  | hours hsign =>
      refine Text.stops_cons.mpr ?_
      rcases hsign with rfl | rfl <;> simp [isDigit]

/-- A date begins with a digit. -/
theorem SpellsDate.starts (hdate : SpellsDate written) :
    ∃ c cs, written = c :: cs ∧ isDigit c = true := by
  cases hdate with
  | @day year month day y m d hyear =>
      obtain ⟨c, more, rfl⟩ := List.exists_cons_of_length_eq_add_one hyear.width
      exact ⟨c, _, rfl, hyear.digits c (List.mem_cons_self ..)⟩

/-- A time begins with two digits and a colon. -/
theorem SpellsTime.starts (htime : SpellsTime written) :
    ∃ c c' cs, written = c :: c' :: ':' :: cs ∧ isDigit c = true ∧ isDigit c' = true := by
  cases htime with
  | @time hour minute second h m s fraction hhour =>
      obtain ⟨c, c', rfl⟩ := List.length_eq_two.mp hhour.width
      exact ⟨c, c', _, rfl, hhour.digits c (by simp), hhour.digits c' (by simp)⟩

/-- A moment begins with a digit. -/
theorem SpellsMoment.starts (hmoment : SpellsMoment written) :
    ∃ c cs, written = c :: cs ∧ isDigit c = true := by
  cases hmoment with
  | date hdate => exact hdate.starts
  | time htime =>
      obtain ⟨c, c', cs, rfl, hdigit, -⟩ := htime.starts
      exact ⟨c, _, rfl, hdigit⟩
  | both hdate =>
      obtain ⟨c, cs, rfl, hdigit⟩ := hdate.starts
      exact ⟨c, _, rfl, hdigit⟩

/-- A moment is read to its end, where a value may end. -/
theorem SpellsMoment.moment? (hmoment : SpellsMoment written) (hrest : Ends rest) :
    moment? (written ++ rest) = some rest := by
  cases hmoment with
  | date hdate =>
      have hskip : skipTime rest = rest := by
        cases rest with
        | nil => rfl
        | cons c more =>
            have hmark : ¬(c = 'T' ∨ c = 't' ∨ c = ' ') := by
              rintro (rfl | rfl | rfl) <;> exact ne_cons_of_ends hrest (by simp [isEnd]) more rfl
            exact if_neg hmark
      rw [Toml.moment?, hdate.date?, Option.map_some, hskip]
      rfl
  | time htime =>
      have htail := htime.time? (SpellsOffset.none.stops hrest)
      obtain ⟨c, c', cs, rfl, hc, hc'⟩ := htime.starts
      have hcolon : Stops (· == '-') ((c :: c' :: ':' :: cs ++ rest).dropWhile isDigit) := by
        rw [List.cons_append, List.dropWhile_cons_of_pos hc, List.cons_append,
          List.dropWhile_cons_of_pos hc']
        exact Text.stops_cons.mpr rfl
      rw [Toml.moment?, date?_eq_none (.inr hcolon)]
      exact htail
  | @both date time offset mark hdate hmark htime hoffset =>
      have hskip : skipTime (mark :: (time ++ (offset ++ rest))) = rest := by
        refine (if_pos hmark).trans ?_
        rw [htime.time? (hoffset.stops hrest), Option.map_some, Option.getD_some]
        exact hoffset.skipOffset hrest
      rw [List.append_assoc, List.cons_append, List.append_assoc, Toml.moment?, hdate.date?,
        Option.map_some, hskip]
      rfl

theorem reads_moment (hmoment : SpellsMoment written) (depth : ℕ) :
    Reads depth written .moment := by
  intro rest hrest
  have hread := hmoment.moment? hrest
  obtain ⟨c, cs, rfl, hdigit⟩ := hmoment.starts
  rw [List.cons_append] at hread ⊢
  rw [value?_eq_moment?_or (.inr (.inr hdigit)), hread]
  rfl

-- =================================================== keys that begin differently

/-- The first part of a key. -/
def firstPart (path : List String) : String :=
  path.headD ""

/-- The value under the parts of a dotted key. -/
def nested : List String → Value → Value
  | [], value => value
  | name :: rest, value => .table .dotted [(name, nested rest value)]

/-- What a key and its value say at the first part of the key. -/
def Pair.entry (pair : Pair) : String × Value :=
  (firstPart pair.path, nested pair.path.tail pair.value)

namespace Entries

variable {entries : Entries} {name : String} {path : List String}

theorem put_of_not_mem (hfresh : name ∉ entries.keys) (value : Value) :
    entries.put name value = entries ++ [(name, value)] := by
  induction entries with
  | nil => rfl
  | cons entry rest ih =>
      obtain ⟨hother, hrest⟩ := not_or.mp (List.mem_cons.not.mp hfresh)
      rw [put, if_neg (Ne.symm hother), ih hrest]
      rfl

/-- Where nothing is said of the first part of a key, the key can have any value. -/
theorem define_fresh (hfresh : name ∉ entries.keys) (path : List String) (value : Value) :
    entries.define value (name :: path) = some (entries ++ [(name, nested path value)]) := by
  induction path generalizing name entries with
  | nil =>
      rw [define_cons, update_eq, find?_eq_none_iff.mpr hfresh]
      exact congrArg some (put_of_not_mem hfresh value)
  | cons next path ih =>
      rw [define_cons, update_eq, find?_eq_none_iff.mpr hfresh, changeOf,
        if_neg (List.cons_ne_nil next path), ih List.not_mem_nil]
      exact congrArg some (put_of_not_mem hfresh _)

/-- Keys that begin differently can have any values. -/
theorem defineAll_distinct {pairs : List Pair} (hpaths : ∀ pair ∈ pairs, pair.path ≠ [])
    (hdistinct : (pairs.map fun pair => firstPart pair.path).Nodup)
    (hfresh : ∀ pair ∈ pairs, firstPart pair.path ∉ entries.keys) :
    entries.defineAll (pairs.map Pair.content) = some (entries ++ pairs.map Pair.entry) := by
  induction pairs generalizing entries with
  | nil => exact congrArg some (List.append_nil entries).symm
  | cons pair pairs ih =>
      obtain ⟨hpath, hothers⟩ := List.forall_mem_cons.mp hpaths
      obtain ⟨hfirst, hmore⟩ := List.forall_mem_cons.mp hfresh
      obtain ⟨hunlike, hrest⟩ := List.nodup_cons.mp hdistinct
      have hdefine : entries.define pair.value pair.path = some (entries ++ [pair.entry]) := by
        obtain ⟨name, path, hcons⟩ := List.exists_cons_of_ne_nil hpath
        rw [firstPart, hcons] at hfirst
        rw [Pair.entry, firstPart, hcons]
        exact define_fresh hfirst path pair.value
      have hlater : ∀ other ∈ pairs, firstPart other.path ∉ keys (entries ++ [pair.entry]) := by
        intro other hother hmem
        rw [keys, List.map_append, List.mem_append] at hmem
        rcases hmem with hmem | hmem
        · exact hmore other hother hmem
        · rw [List.map_singleton, List.mem_singleton] at hmem
          exact hunlike (List.mem_map.mpr ⟨other, hother, hmem⟩)
      rw [List.map_cons, List.map_cons, defineAll, List.foldlM_cons, Pair.content, hdefine]
      refine (ih hothers hrest hlater).trans ?_
      rw [List.append_assoc, List.singleton_append]

end Entries

namespace Step

variable {steps : List Step} {step : Step} {entries : Entries}

/-- A step that can be taken in an empty table can be taken for its key alone. -/
theorem exists_change_none (hact : step.act [] = some entries) :
    ∃ value, step.change none = some value := by
  refine Option.ne_none_iff_exists'.mp fun hnone => ?_
  rw [step.fails [] hnone] at hact
  cases hact

/-- A pair makes a table by itself. -/
theorem exists_change_ofPair {pair : List String × Value} (hpath : pair.1 ≠ []) :
    ∃ value, (ofPair pair).change none = some value := by
  obtain ⟨name, path, hcons⟩ := List.exists_cons_of_ne_nil hpath
  have hact := ofPair_act pair []
  rw [hcons, Entries.define_fresh List.not_mem_nil] at hact
  exact exists_change_none hact

/-- A header makes a table by itself, if the pairs under it do. -/
theorem exists_change_ofSection {part : Section} (hkey : part.key ≠ [])
    (hpairs : Entries.defineAll part.pairs [] = some entries) :
    ∃ value, (ofSection part).change none = some value := by
  obtain ⟨isElement, key, pairs⟩ := part
  induction key with
  | nil => exact absurd rfl hkey
  | cons name key ih =>
      cases key with
      | nil =>
          cases isElement with
          | true => exact ⟨_, congrArg (Option.map _) hpairs⟩
          | false => exact ⟨_, congrArg (Option.map _) hpairs⟩
      | cons next key =>
          obtain ⟨value, hvalue⟩ := ih (List.cons_ne_nil next key) hpairs
          obtain ⟨changed, hact, -⟩ := (ofSection ⟨isElement, next :: key, pairs⟩).acts [] value
            hvalue
          rw [ofSection_act] at hact
          have hbelow : (ofSection ⟨isElement, name :: next :: key, pairs⟩).change none
              = some (.table .implied changed) := congrArg (Option.map (Value.table .implied)) hact
          exact ⟨_, hbelow⟩

/-- Steps for different keys that can be taken alone can be taken together. -/
theorem run_of_distinct (hdistinct : (steps.map Step.key).Nodup)
    (halone : ∀ step ∈ steps, ∃ value, step.change none = some value) :
    ∃ final, run steps [] = some final := by
  have htold (name : String) :
      ∃ last?, told name steps (Entries.find? name []) = some last? := by
    induction steps with
    | nil => exact ⟨none, rfl⟩
    | cons step steps ih =>
        obtain ⟨hunlike, hrest⟩ := List.nodup_cons.mp hdistinct
        obtain ⟨⟨value, hvalue⟩, hothers⟩ := List.forall_mem_cons.mp halone
        by_cases hkey : step.key = name
        · have hnone : ∀ other ∈ steps, other.key ≠ name := fun other hother hsame =>
            hunlike (List.mem_map.mpr ⟨other, hother, hsame.trans hkey.symm⟩)
          refine ⟨some value, (told_cons_own hkey).trans ?_⟩
          exact (congrArg (Option.bind · _) hvalue).trans (told_of_none hnone)
        · rw [told_cons_other hkey]
          exact ih hrest hothers
  obtain ⟨final, hrun, -⟩ := run_of_told htold
  exact ⟨final, hrun⟩

end Step

-- ================================================================== values

/-- The text of a value in which arrays and tables nest at most `depth` deep. -/
inductive SpellsValue : ℕ → List Char → Value → Prop where
  | boolean {depth : ℕ} (b : Bool) :
      SpellsValue depth (if b then ['t', 'r', 'u', 'e'] else ['f', 'a', 'l', 's', 'e'])
        (.boolean b)
  | text {depth : ℕ} {written string : List Char} (hquoted : Quoted written string) :
      SpellsValue depth written (.text (String.ofList string))
  | integer {depth : ℕ} {written : List Char} {n : ℤ} (hspelled : SpellsInteger written n)
      (hfits : -9223372036854775808 ≤ n ∧ n ≤ 9223372036854775807) :
      SpellsValue depth written (.integer n)
  | float {depth : ℕ} {written : List Char} {d : Decimal} (hspelled : SpellsFloat written d)
      (hfits : d.toBinary64 ≠ .infinity false) : SpellsValue depth written (.float d.toBinary64)
  | moment {depth : ℕ} {written : List Char} (hmoment : SpellsMoment written) :
      SpellsValue depth written .moment
  | array {depth : ℕ} {parts : List (List Char × Value)}
      (hparts : ∀ part ∈ parts, SpellsValue depth part.1 part.2) :
      SpellsValue (depth + 1) ('[' :: (commas (parts.map Prod.fst) ++ [']']))
        (.array (parts.map Prod.snd))
  | braces {depth : ℕ} {pairs : List Pair}
      (hkeys : ∀ pair ∈ pairs, SpellsKey pair.key pair.path ∧ pair.path.length ≤ longestKey)
      (hvalues : ∀ pair ∈ pairs, SpellsValue depth pair.text pair.value)
      (hdistinct : (pairs.map fun pair => firstPart pair.path).Nodup) :
      SpellsValue (depth + 1) ('\x7b' :: (commas (pairs.map Pair.line) ++ ['\x7d']))
        (.table .braces (pairs.map Pair.entry))

/-- What the grammar describes is read for what it says. -/
theorem SpellsValue.reads {value : Value} (hspelled : SpellsValue depth written value) :
    Reads depth written value := by
  induction hspelled with
  | boolean b => exact reads_boolean b _
  | text hquoted => exact reads_quoted hquoted _
  | integer hspelled hfits => exact fun _ hrest => hspelled.value? hfits hrest _
  | float hspelled hfits => exact reads_float hspelled hfits _
  | moment hmoment => exact reads_moment hmoment _
  | @array depth parts hparts ih =>
      refine reads_array ?_
      rw [List.forall₂_map_left_iff, List.forall₂_map_right_iff]
      exact List.forall₂_same.mpr ih
  | @braces depth pairs hkeys hvalues hdistinct ih =>
      have hpairs : ∀ pair ∈ pairs, pair.Spelled depth := fun pair hpair =>
        ⟨(hkeys pair hpair).1, (hkeys pair hpair).2, ih pair hpair⟩
      refine reads_braces hpairs ?_
      exact Entries.defineAll_distinct (fun pair hpair => (hkeys pair hpair).1.path_ne_nil)
        hdistinct fun _ _ => List.not_mem_nil

end Turnstile.Toml
