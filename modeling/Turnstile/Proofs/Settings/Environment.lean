/-
What the environment says, and that each variable is heard by itself.

What a text stands for in a variable is said without the readers: what is left of it
between blanks is a number below a bound, a truth value, a floating-point numeral or a
duration (`Variable.Denotes`). The readers take exactly that (`read?_eq_some_iff`).

Every variable overrides a setting of its own, and whether it does so depends on its
own text alone. So by induction on the variables that are looked up a setting is what
its variable denotes, or what it was (`setting_overrideEach`), and the reports are those of
the texts that denote nothing, in the order of the variables (`overrideEach_snd`).
Nothing of that depends on what was there before, so a second time changes nothing.

Chain (settings): Settings/Numerals.lean, Settings/Overrides.lean and
Duration/Total.lean below; a top statement of the library.
-/
import Mathlib
import Turnstile.Proofs.Duration.Total
import Turnstile.Proofs.Settings.Numerals
import Turnstile.Proofs.Settings.Overrides
import Turnstile.Proofs.Text.Runs

namespace Turnstile.Settings

open Text (SpellsBelow Trims)

variable {lookup : String → Option String} {settings : Settings} {which : Variable}
  {vars : List Variable} {text : String} {cs : List Char} {bound : ℕ}

-- ============================================================ what a text denotes

namespace Variable

/-- How the values of a variable are written. -/
def Spells : (which : Variable) → List Char → which.Value → Prop
  | .port, cs, n => SpellsBelow (2 ^ 16) cs n.toNat
  | .enabled, cs, b => cs = if b then ['t', 'r', 'u', 'e'] else ['f', 'a', 'l', 's', 'e']
  | .rps, cs, x => Decimal.Numeral.SpellsNumeral cs x
  | .burst, cs, n => SpellsBelow (2 ^ 32) cs n.toNat
  | .evictionInterval, cs, d => ∃ terms, Duration.Spells cs terms
      ∧ Duration.total? terms = some d

/-- A text denotes what is written in it between blanks. -/
def Denotes (which : Variable) (text : String) (value : which.Value) : Prop :=
  ∃ core, Trims text.toList core ∧ which.Spells core value

theorem denotes_iff {value : which.Value} :
    which.Denotes text value ↔ which.Spells (Text.trim text.toList) value := by
  constructor
  · rintro ⟨core, htrims, hspells⟩
    exact htrims.eq_trim ▸ hspells
  · intro hspells
    exact ⟨_, Text.trims_trim text.toList, hspells⟩

-- ============================================================ the readers

/-- Numbers below the bound of a word are its values. -/
theorem map_bounded?_eq_some_iff {α : Type} {ofNat : ℕ → α} {toNat : α → ℕ} {a : α}
    (hvalue : ∀ a, ofNat (toNat a) = a) (hnumber : ∀ n < bound, toNat (ofNat n) = n) :
    (Text.bounded? bound cs).map ofNat = some a ↔ SpellsBelow bound cs (toNat a) := by
  rw [Option.map_eq_some_iff]
  constructor
  · rintro ⟨n, hread, rfl⟩
    have hspells := Text.bounded?_eq_some_iff.mp hread
    have hbound : n < bound := by
      obtain ⟨-, -, -, -, -, -, -, hbound⟩ := hspells
      exact hbound
    rwa [hnumber n hbound]
  · intro hspells
    exact ⟨toNat a, Text.bounded?_eq_some_iff.mpr hspells, hvalue a⟩

theorem boolean?_eq_some_iff {b : Bool} : boolean? cs = some b
    ↔ cs = if b then ['t', 'r', 'u', 'e'] else ['f', 'a', 'l', 's', 'e'] := by
  unfold boolean?
  by_cases htrue : cs = ['t', 'r', 'u', 'e']
  · subst htrue
    cases b <;> decide
  · rw [if_neg htrue]
    by_cases hfalse : cs = ['f', 'a', 'l', 's', 'e']
    · subst hfalse
      cases b <;> decide
    · rw [if_neg hfalse]
      cases b with
      | true => simp [htrue]
      | false => simp [hfalse]

theorem duration_parse?_eq_some_iff {d : Duration} : Duration.parse? text = some d
    ↔ ∃ terms, Duration.Spells (Text.trim text.toList) terms
      ∧ Duration.total? terms = some d := by
  constructor
  · intro hread
    by_cases hspells : ∃ terms, Duration.Spells (Text.trim text.toList) terms
    · obtain ⟨terms, hterms⟩ := hspells
      rw [Duration.parse?_of_spells hterms] at hread
      exact ⟨terms, hterms, hread⟩
    · rw [Duration.parse?_of_not_spells hspells] at hread
      cases hread
  · rintro ⟨terms, hterms, htotal⟩
    rw [Duration.parse?_of_spells hterms, htotal]

/-- What is read is what is denoted. -/
theorem read?_eq_some_iff {value : which.Value} :
    which.read? text = some value ↔ which.Denotes text value := by
  rw [denotes_iff]
  cases which with
  | port =>
      exact map_bounded?_eq_some_iff (fun _ => UInt16.ofNat_toNat)
        fun _ hn => UInt16.toNat_ofNat_of_lt hn
  | enabled => exact boolean?_eq_some_iff
  | rps => exact Decimal.Numeral.binary64?_eq_some_iff
  | burst =>
      exact map_bounded?_eq_some_iff (fun _ => UInt32.ofNat_toNat)
        fun _ hn => UInt32.toNat_ofNat_of_lt hn
  | evictionInterval => exact duration_parse?_eq_some_iff

theorem isSome_read?_iff : (which.read? text).isSome = true
    ↔ ∃ value, which.Denotes text value := by
  rw [Option.isSome_iff_exists]
  exact exists_congr fun _ => read?_eq_some_iff

end Variable

open Variable (held?)

-- ============================================================ one setting

theorem setting_of_unset (hunset : lookup which.name = none) (settings : Settings) :
    which.setting (overridden lookup settings).1 = which.setting settings := by
  unfold overridden
  rw [setting_overrideEach which.mem_all, held?, hunset]
  rfl

theorem setting_of_denotes {value : which.Value} (hset : lookup which.name = some text)
    (hdenotes : which.Denotes text value) (settings : Settings) :
    which.setting (overridden lookup settings).1 = value := by
  unfold overridden
  rw [setting_overrideEach which.mem_all, held?, hset, Option.bind_some,
    Variable.read?_eq_some_iff.mpr hdenotes, Option.getD_some]

theorem setting_of_not_denotes (hset : lookup which.name = some text)
    (hnone : ¬∃ value, which.Denotes text value) (settings : Settings) :
    which.setting (overridden lookup settings).1 = which.setting settings := by
  have hread : which.read? text = none := by
    rwa [← Option.not_isSome_iff_eq_none, Variable.isSome_read?_iff]
  unfold overridden
  rw [setting_overrideEach which.mem_all, held?, hset, Option.bind_some, hread,
    Option.getD_none]

/-- What other variables hold does not matter. -/
theorem setting_congr {other : String → Option String}
    (hsame : other which.name = lookup which.name) (settings : Settings) :
    which.setting (overridden other settings).1
      = which.setting (overridden lookup settings).1 := by
  unfold overridden
  rw [setting_overrideEach which.mem_all, setting_overrideEach which.mem_all, held?, held?,
    hsame]

-- =========================================================== all reports

theorem unread?_eq_some_iff {entry : Variable × String} :
    unread? lookup which = some entry
      ↔ which = entry.1 ∧ lookup entry.1.name = some entry.2
        ∧ ¬∃ value, entry.1.Denotes entry.2 value := by
  unfold unread?
  rw [Option.bind_eq_some_iff]
  constructor
  · rintro ⟨text, hset, hread⟩
    obtain ⟨hnone, hentry⟩ := Option.ite_none_left_eq_some.mp hread
    cases hentry
    rw [Variable.isSome_read?_iff] at hnone
    exact ⟨rfl, hset, hnone⟩
  · obtain ⟨which', text⟩ := entry
    rintro ⟨rfl, hset, hnone⟩
    refine ⟨text, hset, if_neg ?_⟩
    rwa [Variable.isSome_read?_iff]

/-- The variables with texts that denote nothing, in their order. -/
theorem map_fst_unread_sublist (lookup : String → Option String) (vars : List Variable) :
    ((vars.filterMap (unread? lookup)).map Prod.fst).Sublist vars := by
  induction vars with
  | nil => exact .slnil
  | cons next rest ih =>
      cases hunread : unread? lookup next with
      | none =>
          rw [List.filterMap_cons_none hunread]
          exact ih.cons _
      | some entry =>
          obtain ⟨hnext, -, -⟩ := unread?_eq_some_iff.mp hunread
          rw [List.filterMap_cons_some hunread, List.map_cons, ← hnext]
          exact ih.cons_cons _

theorem mem_unread_iff :
    (which, text) ∈ Variable.all.filterMap (unread? lookup)
      ↔ lookup which.name = some text ∧ ¬∃ value, which.Denotes text value := by
  rw [List.mem_filterMap]
  constructor
  · rintro ⟨next, -, hunread⟩
    exact (unread?_eq_some_iff.mp hunread).2
  · intro hwrong
    exact ⟨which, which.mem_all, unread?_eq_some_iff.mpr ⟨rfl, hwrong⟩⟩

/-- A second time changes nothing. -/
theorem overridden_again (lookup : String → Option String) (settings : Settings) :
    overridden lookup (overridden lookup settings).1 = overridden lookup settings := by
  refine Prod.ext (ext_setting (fun which => ?_) ?_) ?_
  · unfold overridden
    rw [setting_overrideEach which.mem_all, setting_overrideEach which.mem_all]
    cases held? lookup which which.read? <;> rfl
  · exact crossOrigin_overrideEach lookup _ _
  · unfold overridden
    rw [overrideEach_snd, overrideEach_snd]

-- ============================================================ the overrides

/-- What the environment does to any settings. A setting is what the text of its own
variable denotes, and what it was if the variable is not set or its text denotes
nothing; no other variable has a say in it. The rest stays as it is. What is reported
are the variables whose texts denote nothing, each once, in their order and with their
texts in full. Doing it twice comes to the same as doing it once. -/
theorem overrides_are_independent (lookup : String → Option String) (settings : Settings) :
    let final := (overridden lookup settings).1
    let events := (overridden lookup settings).2
    (∀ which : Variable,
      (lookup which.name = none → which.setting final = which.setting settings)
        ∧ (∀ text, lookup which.name = some text →
          (∀ value, which.Denotes text value → which.setting final = value)
            ∧ ((¬∃ value, which.Denotes text value) →
              which.setting final = which.setting settings))
        ∧ ∀ other : String → Option String, other which.name = lookup which.name →
          which.setting (overridden other settings).1 = which.setting final)
      ∧ final.crossOrigin = settings.crossOrigin
      ∧ (∃ wrong : List (Variable × String),
        events = wrong.map (fun (which, text) =>
          .overrideIgnored which.name text (which.reason text))
          ∧ (wrong.map fun (which, _) => which.name).Sublist
            ["APP_PORT", "RATE_LIMITER_ENABLED", "RATE_LIMITER_RPS", "RATE_LIMITER_BURST",
              "RATE_LIMITER_TTL"]
          ∧ ∀ which text, (which, text) ∈ wrong
            ↔ lookup which.name = some text ∧ ¬∃ value, which.Denotes text value)
      ∧ (∀ event ∈ events, event.level = .warn)
      ∧ overridden lookup final = (final, events) := by
  intro final events
  have hevents : events = (Variable.all.filterMap (unread? lookup)).map ignored :=
    overrideEach_snd lookup settings Variable.all
  refine ⟨fun which => ⟨fun hunset => setting_of_unset hunset settings, fun text hset => ?_,
    fun other hsame => setting_congr hsame settings⟩,
    crossOrigin_overrideEach lookup settings _, ⟨_, hevents, ?_, fun _ _ => mem_unread_iff⟩,
    ?_, overridden_again lookup settings⟩
  · exact ⟨fun value hdenotes => setting_of_denotes hset hdenotes settings,
      fun hnone => setting_of_not_denotes hset hnone settings⟩
  · have hnames := (map_fst_unread_sublist lookup Variable.all).map Variable.name
    rwa [List.map_map] at hnames
  · intro event hmem
    rw [hevents] at hmem
    obtain ⟨entry, -, rfl⟩ := List.mem_map.mp hmem
    rfl

/-- A port with a sign and blanks around it, a truth value in capitals, an infinite rate,
a burst that is too large by one, and a duration. Two of the five are reported. -/
theorem overrides_are_independent_of_mixed :
    let lookup : String → Option String := fun name =>
      [("APP_PORT", "\u00A0+09090 "), ("RATE_LIMITER_ENABLED", "TRUE"),
        ("RATE_LIMITER_RPS", "-InFinity"), ("RATE_LIMITER_BURST", " 4294967296"),
        ("RATE_LIMITER_TTL", "1.5h")].lookup name
    let final : Settings :=
      ⟨⟨9090⟩, ⟨true, .infinity true, 10, .ofNanos 5400000000000⟩, .default⟩
    let events : List Event :=
      [.overrideIgnored "RATE_LIMITER_ENABLED" "TRUE" none,
        .overrideIgnored "RATE_LIMITER_BURST" " 4294967296" none]
    overridden lookup .default = (final, events)
      ∧ overridden lookup final = (final, events) := by
  intro lookup final events
  have honce : overridden lookup .default = (final, events) := by decide +kernel
  obtain ⟨-, -, -, -, htwice⟩ := overrides_are_independent lookup .default
  rw [honce] at htwice
  exact ⟨honce, htwice⟩

end Turnstile.Settings
