/-
What the environment does to the settings, and what the check then says.

Five variables are looked up one after the other, but each changes a setting
that no other variable changes (`Variable.setting_put_other`). So by induction
on the variables that are looked up the overrides are told setting by setting: it
has what its variable holds, and what it had before if the variable holds nothing
that reads (`setting_overrideEach`, `overridden_fst`). What is reported does not
depend on the settings at all (`overrideEach_snd`). What `held?` leaves out is
ignored, but what it lets through is not looked at until the check.

The check is told by the first thing that is wrong (`fault?_eq_some_iff`), and
passes exactly if nothing is (`fault?_eq_none_iff_runnable`). An override can
break what was in order only with a value of its own that is of no use, or by
turning on a limiter that was off (`blame`).

Chain (settings): Settings/Usable.lean below; Settings/Environment.lean and
Settings/Layers.lean above.
-/
import Mathlib
import Turnstile.Proofs.Settings.Usable
import Turnstile.Settings.Override

namespace Turnstile.Settings

-- ========================================================== the overrides

namespace Variable

/-- A port in the environment. -/
def portOf? (text : String) : Option UInt16 :=
  (Text.bounded? 65536 (Text.trim text.toList)).map UInt16.ofNat

/-- A truth value in the environment. -/
def enabledOf? (text : String) : Option Bool :=
  boolean? (Text.trim text.toList)

/-- A rate in the environment. -/
def rpsOf? (text : String) : Option Binary64 :=
  Decimal.Numeral.binary64? (Text.trim text.toList)

/-- A number of requests in the environment. -/
def burstOf? (text : String) : Option UInt32 :=
  (Text.bounded? 4294967296 (Text.trim text.toList)).map UInt32.ofNat

/-- What a variable holds, if it is set and its text reads. -/
def held? {α : Type} (lookup : String → Option String) (which : Variable)
    (read : String → Option α) : Option α :=
  (lookup which.name).bind read

end Variable

open Variable (held? portOf? enabledOf? rpsOf? burstOf?)

/-- Each setting that has a variable is what the variable holds, or what it was
before. -/
def layered (lookup : String → Option String) (settings : Settings) : Settings where
  server := ⟨(held? lookup .port portOf?).getD settings.server.port⟩
  rateLimit :=
    { enabled := (held? lookup .enabled enabledOf?).getD settings.rateLimit.enabled
      rps := (held? lookup .rps rpsOf?).getD settings.rateLimit.rps
      burst := (held? lookup .burst burstOf?).getD settings.rateLimit.burst
      evictionInterval := (held? lookup .evictionInterval Duration.parse?).getD
        settings.rateLimit.evictionInterval }
  crossOrigin := settings.crossOrigin

variable {lookup : String → Option String} {settings : Settings}

-- ============================================================ one variable

namespace Variable

/-- What a variable holds. -/
abbrev Value : Variable → Type
  | .port => UInt16
  | .enabled => Bool
  | .rps => Binary64
  | .burst => UInt32
  | .evictionInterval => Duration

/-- The setting that a variable overrides. -/
def setting (settings : Settings) : (which : Variable) → which.Value
  | .port => settings.server.port
  | .enabled => settings.rateLimit.enabled
  | .rps => settings.rateLimit.rps
  | .burst => settings.rateLimit.burst
  | .evictionInterval => settings.rateLimit.evictionInterval

/-- The settings with another value for it. -/
def put (settings : Settings) : (which : Variable) → which.Value → Settings
  | .port, n => { settings with server.port := n }
  | .enabled, b => { settings with rateLimit.enabled := b }
  | .rps, x => { settings with rateLimit.rps := x }
  | .burst, n => { settings with rateLimit.burst := n }
  | .evictionInterval, d => { settings with rateLimit.evictionInterval := d }

/-- The value of a text, if it is one. -/
def read? : (which : Variable) → String → Option which.Value
  | .port, text => portOf? text
  | .enabled, text => enabledOf? text
  | .rps, text => rpsOf? text
  | .burst, text => burstOf? text
  | .evictionInterval, text => Duration.parse? text

/-- Why a text is no value; only durations say. -/
def reason (text : String) : Variable → Option String
  | .evictionInterval => some (Fault.invalidDuration text).message
  | _ => none

/-- What a text does to the settings. -/
theorem apply_eq (which : Variable) (settings : Settings) (text : String) :
    which.apply settings text
      = match which.read? text with
        | some value => .ok (which.put settings value)
        | none => .error (which.reason text) := by
  cases which with
  | port =>
      simp only [apply, read?, portOf?]
      cases Text.bounded? 65536 (Text.trim text.toList) <;> rfl
  | enabled =>
      simp only [apply, read?, enabledOf?]
      cases boolean? (Text.trim text.toList) <;> rfl
  | rps =>
      simp only [apply, read?, rpsOf?]
      cases Decimal.Numeral.binary64? (Text.trim text.toList) <;> rfl
  | burst =>
      simp only [apply, read?, burstOf?]
      cases Text.bounded? 4294967296 (Text.trim text.toList) <;> rfl
  | evictionInterval =>
      simp only [apply, read?, durationOf]
      cases Duration.parse? text <;> rfl

variable {which other : Variable}

theorem setting_put (which : Variable) (settings : Settings) (value : which.Value) :
    which.setting (which.put settings value) = value := by
  cases which <;> rfl

/-- No variable overrides the setting of another. -/
theorem setting_put_other (hother : other ≠ which) (settings : Settings)
    (value : which.Value) :
    other.setting (which.put settings value) = other.setting settings := by
  cases which <;> cases other <;> first | rfl | exact absurd rfl hother

theorem crossOrigin_put (which : Variable) (settings : Settings) (value : which.Value) :
    (which.put settings value).crossOrigin = settings.crossOrigin := by
  cases which <;> rfl

theorem mem_all (which : Variable) : which ∈ all := by
  cases which <;> decide

end Variable

/-- Settings are what the variables override and the cross-origin rules. -/
theorem ext_setting {these those : Settings}
    (hsettings : ∀ which : Variable, which.setting these = which.setting those)
    (hcross : these.crossOrigin = those.crossOrigin) : these = those := by
  obtain ⟨⟨port⟩, ⟨enabled, rps, burst, interval⟩, rules⟩ := these
  obtain ⟨⟨port'⟩, ⟨enabled', rps', burst', interval'⟩, rules'⟩ := those
  obtain rfl : port = port' := hsettings .port
  obtain rfl : enabled = enabled' := hsettings .enabled
  obtain rfl : rps = rps' := hsettings .rps
  obtain rfl : burst = burst' := hsettings .burst
  obtain rfl : interval = interval' := hsettings .evictionInterval
  obtain rfl : rules = rules' := hcross
  rfl

variable {which other : Variable} {vars : List Variable}

/-- A variable that is set to a text without a value, and the text. -/
def unread? (lookup : String → Option String) (which : Variable) :
    Option (Variable × String) :=
  (lookup which.name).bind fun text =>
    if (which.read? text).isSome then none else some (which, text)

/-- The report of it. -/
def ignored : Variable × String → Event
  | (which, text) => .overrideIgnored which.name text (which.reason text)

/-- What a variable does, in the three cases. -/
theorem override_eq (which : Variable) (lookup : String → Option String)
    (settings : Settings) :
    which.override lookup settings
      = ((held? lookup which which.read?).elim settings (which.put settings),
        ((unread? lookup which).map ignored).toList) := by
  unfold Variable.override held? unread?
  cases lookup which.name with
  | none => rfl
  | some text =>
      rw [Option.bind_some, Option.bind_some]
      dsimp only
      rw [which.apply_eq]
      cases which.read? text <;> rfl

theorem setting_override (which : Variable) (lookup : String → Option String)
    (settings : Settings) :
    which.setting (which.override lookup settings).1
      = (held? lookup which which.read?).getD (which.setting settings) := by
  rw [override_eq]
  cases held? lookup which which.read? with
  | none => rfl
  | some value => exact which.setting_put settings value

theorem setting_override_other (hother : other ≠ which) (lookup : String → Option String)
    (settings : Settings) :
    other.setting (which.override lookup settings).1 = other.setting settings := by
  rw [override_eq]
  cases held? lookup which which.read? with
  | none => rfl
  | some value => exact Variable.setting_put_other hother settings value

theorem crossOrigin_override (which : Variable) (lookup : String → Option String)
    (settings : Settings) :
    (which.override lookup settings).1.crossOrigin = settings.crossOrigin := by
  rw [override_eq]
  cases held? lookup which which.read? with
  | none => rfl
  | some value => exact which.crossOrigin_put settings value

-- ============================================================ all variables

/-- A setting is untouched until its variable is looked up. -/
theorem setting_overrideEach_other (hother : which ∉ vars)
    (lookup : String → Option String) (settings : Settings) :
    which.setting (overrideEach lookup settings vars).1 = which.setting settings := by
  induction vars generalizing settings with
  | nil => rfl
  | cons next rest ih =>
      rw [List.mem_cons, not_or] at hother
      obtain ⟨hnext, hrest⟩ := hother
      exact (ih hrest _).trans (setting_override_other hnext lookup settings)

/-- After that it is what the variable holds, if it holds anything. -/
theorem setting_overrideEach (hmem : which ∈ vars) (lookup : String → Option String)
    (settings : Settings) :
    which.setting (overrideEach lookup settings vars).1
      = (held? lookup which which.read?).getD (which.setting settings) := by
  induction vars generalizing settings with
  | nil => cases hmem
  | cons next rest ih =>
      show which.setting (overrideEach lookup (next.override lookup settings).1 rest).1 = _
      by_cases hnext : which = next
      · -- looked up now, and perhaps once more later on, with the same outcome
        subst hnext
        have hfirst := setting_override which lookup settings
        by_cases hrest : which ∈ rest
        · rw [ih hrest, hfirst]
          cases held? lookup which which.read? <;> rfl
        · rw [setting_overrideEach_other hrest, hfirst]
      · have hrest := (List.mem_cons.mp hmem).resolve_left hnext
        rw [ih hrest, setting_override_other hnext]

theorem crossOrigin_overrideEach (lookup : String → Option String) (settings : Settings)
    (vars : List Variable) :
    (overrideEach lookup settings vars).1.crossOrigin = settings.crossOrigin := by
  induction vars generalizing settings with
  | nil => rfl
  | cons next rest ih => exact (ih _).trans (crossOrigin_override next lookup settings)

/-- What is reported does not depend on the settings. -/
theorem overrideEach_snd (lookup : String → Option String) (settings : Settings)
    (vars : List Variable) :
    (overrideEach lookup settings vars).2 = (vars.filterMap (unread? lookup)).map ignored := by
  induction vars generalizing settings with
  | nil => rfl
  | cons next rest ih =>
      show (next.override lookup settings).2 ++ (overrideEach lookup _ rest).2 = _
      rw [ih, override_eq, List.filterMap_cons]
      cases unread? lookup next <;> rfl

/-- The overrides do not interfere. -/
theorem overridden_fst (lookup : String → Option String) (settings : Settings) :
    (overridden lookup settings).1 = layered lookup settings := by
  refine ext_setting (fun which => ?_) (crossOrigin_overrideEach lookup settings _)
  unfold overridden
  rw [setting_overrideEach which.mem_all]
  cases which <;> rfl

theorem layered_of_unset (hunset : ∀ which : Variable, lookup which.name = none) :
    layered lookup settings = settings := by
  unfold layered held?
  simp only [hunset]
  rfl

-- =============================================================== the check

namespace RateLimit

variable {limits : RateLimit} {fault : Fault}

/-- The rate is a positive number. -/
def RateUsable (limits : RateLimit) : Prop :=
  limits.rps.isFinite = true ∧ 0 < limits.rps

/-- The limiter is off, or its rate is a positive number, there is a burst, and
there is time between sweeps. -/
def Runnable (limits : RateLimit) : Prop :=
  limits.enabled = true →
    limits.RateUsable ∧ 1 ≤ limits.burst ∧ 0 < limits.evictionInterval.nanos

/-- The first of rate, burst and interval that is wrong. -/
inductive FirstWrong (limits : RateLimit) : Fault → Prop where
  | rate (hrate : ¬limits.RateUsable) : FirstWrong limits (.invalidRate limits.rps)
  | burst (hrate : limits.RateUsable) (hburst : ¬1 ≤ limits.burst) :
      FirstWrong limits .invalidBurst
  | interval (hrate : limits.RateUsable) (hburst : 1 ≤ limits.burst)
      (hinterval : ¬0 < limits.evictionInterval.nanos) :
      FirstWrong limits .invalidEvictionInterval

theorem one_le_iff_pos {count : UInt32} : 1 ≤ count ↔ 0 < count := by
  rw [UInt32.le_iff_toNat_le, UInt32.lt_iff_toNat_lt]
  exact Nat.one_le_iff_ne_zero.trans Nat.pos_iff_ne_zero.symm

theorem fault?_eq_none_iff_runnable : limits.fault? = none ↔ limits.Runnable := by
  unfold Runnable
  cases henabled : limits.enabled with
  | false => simp [fault?, henabled]
  | true =>
      rw [fault?_eq_none_iff henabled]
      constructor
      · rintro ⟨hquota, hapart⟩ -
        exact ⟨⟨hquota.rate_finite, hquota.rate_pos⟩,
          one_le_iff_pos.mpr hquota.burst_pos, hapart⟩
      · intro hrunnable
        obtain ⟨⟨hfinite, hpositive⟩, hburst, hapart⟩ := hrunnable rfl
        exact ⟨⟨hfinite, hpositive, one_le_iff_pos.mp hburst⟩, hapart⟩

/-- The rate is judged by sign and finiteness. -/
theorem rateUsable_iff :
    limits.RateUsable ↔ (!limits.rps.isFinite || decide (limits.rps ≤ 0)) = false := by
  unfold RateUsable
  rw [Bool.or_eq_false_iff, Bool.not_eq_false', decide_eq_false_iff_not]
  refine and_congr_right fun hfinite => ?_
  exact (Binary64.not_le_iff (Binary64.not_isNaN_of_isFinite hfinite) rfl).symm

/-- The check reports what is wrong first, and only with an enabled limiter. -/
theorem fault?_eq_some_iff :
    limits.fault? = some fault ↔ limits.enabled = true ∧ limits.FirstWrong fault := by
  have hburst_iff : ¬1 ≤ limits.burst ↔ limits.burst = 0 := by
    rw [one_le_iff_pos, UInt32.pos_iff_ne_zero, not_not]
  constructor
  · intro hfault
    unfold fault? at hfault
    split_ifs at hfault with hoff hrate hburst hinterval
    all_goals have henabled : limits.enabled = true := by simpa using hoff
    all_goals refine ⟨henabled, ?_⟩
    all_goals cases hfault
    · refine .rate fun husable => ?_
      rw [rateUsable_iff.mp husable] at hrate
      cases hrate
    · exact .burst (rateUsable_iff.mpr (by simpa using hrate)) (hburst_iff.mpr hburst)
    · refine .interval (rateUsable_iff.mpr (by simpa using hrate)) ?_ (by omega)
      exact not_not.mp fun hnone => hburst (hburst_iff.mp hnone)
  · rintro ⟨henabled, hwrong⟩
    unfold fault?
    rw [henabled]
    cases hwrong with
    | rate hrate =>
        have hbad : (!limits.rps.isFinite || decide (limits.rps ≤ 0)) = true := by
          rw [← Bool.not_eq_false]
          exact fun hgood => hrate (rateUsable_iff.mpr hgood)
        rw [if_neg (by simp), if_pos hbad]
    | burst hrate hburst =>
        rw [if_neg (by simp), if_neg (by simp [rateUsable_iff.mp hrate]),
          if_pos (hburst_iff.mp hburst)]
    | interval hrate hburst hinterval =>
        rw [if_neg (by simp), if_neg (by simp [rateUsable_iff.mp hrate]),
          if_neg (fun hnone => hburst_iff.mpr hnone hburst),
          if_pos (Nat.eq_zero_of_not_pos hinterval)]

end RateLimit

/-- The environment holds a rate, a burst or an interval that is of no use. -/
inductive HoldsUseless (lookup : String → Option String) : Prop where
  | rate {x : Binary64} (hheld : held? lookup .rps rpsOf? = some x)
      (huseless : ¬(x.isFinite = true ∧ 0 < x)) : HoldsUseless lookup
  | burst (hheld : held? lookup .burst burstOf? = some 0) : HoldsUseless lookup
  | interval {d : Duration}
      (hheld : held? lookup .evictionInterval Duration.parse? = some d)
      (huseless : d.nanos = 0) : HoldsUseless lookup

/-- Overrides break settings that are in order only with a value that is of no
use, or by turning the limiter on. -/
theorem blame (hbefore : settings.rateLimit.Runnable)
    (hafter : ¬(layered lookup settings).rateLimit.Runnable) :
    HoldsUseless lookup
      ∨ settings.rateLimit.enabled = false ∧ held? lookup .enabled enabledOf? = some true := by
  by_cases hon : settings.rateLimit.enabled = true
  · obtain ⟨hrate, hburst, hinterval⟩ := hbefore hon
    refine Or.inl (Classical.byContradiction fun hnone => hafter fun _ => ⟨?_, ?_, ?_⟩)
    · show RateLimit.RateUsable _
      unfold layered RateLimit.RateUsable
      cases hheld : held? lookup .rps rpsOf? with
      | none => exact hrate
      | some x => exact not_not.mp fun huseless => hnone (.rate hheld huseless)
    · unfold layered
      cases hheld : held? lookup .burst burstOf? with
      | none => exact hburst
      | some n =>
          refine RateLimit.one_le_iff_pos.mpr (UInt32.pos_iff_ne_zero.mpr ?_)
          rintro rfl
          exact hnone (.burst hheld)
    · unfold layered
      cases hheld : held? lookup .evictionInterval Duration.parse? with
      | none => exact hinterval
      | some d =>
          exact Nat.pos_of_ne_zero fun huseless => hnone (.interval hheld huseless)
  · have hoff := Bool.eq_false_iff.mpr hon
    refine Or.inr ⟨hoff, ?_⟩
    have henabled : (layered lookup settings).rateLimit.enabled = true :=
      Classical.byContradiction fun hstill => hafter fun hnow => absurd hnow hstill
    unfold layered at henabled
    dsimp only at henabled
    cases hheld : held? lookup .enabled enabledOf? with
    | none => rw [hheld, Option.getD_none, hoff] at henabled; cases henabled
    | some b => rw [hheld, Option.getD_some] at henabled; rw [henabled]

end Turnstile.Settings
