/-
What is loaded, layer by layer.

A document below the environment is named or not; if one is, its bytes are
text or not, and the text says settings or not (`Below`). On top of what it says
come the overrides (`layered`), and the check looks at the result only. So
loading ends in one of four ways, and each of them is told by the layers alone
(`load_layers`). Every interval that gets in is read from a text or is the
default, and is shorter than 2^64 nanoseconds (`Duration.parse?_lt`), which is
why its milliseconds are reported as they are.

The check has the last word, so an override can keep the service from starting,
with a document that is in order without it (`load_after_overrides`,
`load_broken_by_zero_rate`).

Chain (settings): Settings/Fields.lean and Settings/Overrides.lean below.
-/
import Mathlib
import Turnstile.Http.Reply
import Turnstile.Proofs.Binary64.Nonneg
import Turnstile.Proofs.Duration.Covering
import Turnstile.Proofs.Limiter.Passage
import Turnstile.Proofs.Settings.Fields
import Turnstile.Proofs.Settings.Overrides
import Turnstile.Settings.Load

namespace Turnstile

-- =============================================================== intervals

namespace Duration

/-- What is read from a text fits into sixty-four bits of nanoseconds. -/
theorem parse?_lt {text : String} {d : Duration} (hparse : parse? text = some d) :
    d.nanos < wordBound := by
  have htotal {ts : List Term} (h : total? ts = some d) : d.nanos < wordBound := by
    unfold total? at h
    dsimp only at h
    split at h
    case isTrue =>
      have hword : Binary64.saturate (wordBound - 1) (Binary64.round
          (ts.foldl (fun sum (t : Term) => sum + t.nanos) (Binary64.zero false)))
          ≤ wordBound - 1 := by
        unfold Binary64.saturate
        split
        · exact Nat.zero_le _
        · split
          · exact Nat.zero_le _
          · exact le_rfl
        · exact Nat.min_le_right ..
      rw [← Option.some.inj h]
      refine lt_of_le_of_lt (Nat.min_le_left ..) (lt_of_le_of_lt hword ?_)
      simp [wordBound]
    case isFalse => cases h
  unfold parse? at hparse
  split at hparse
  case h_1 => cases hparse
  case h_2 =>
    rw [← Option.some.inj hparse]
    exact lt_of_le_of_lt (Nat.min_le_left ..) (by simp [wordBound])
  case h_3 =>
    obtain ⟨ts, -, hd⟩ := Option.bind_eq_some_iff.mp hparse
    exact htotal hd

end Duration

-- ============================================================ what is reported

namespace Limiter

theorem stopSweeper_evictionInterval (limiter : Limiter) :
    limiter.stopSweeper.1.evictionInterval = limiter.evictionInterval := by
  unfold stopSweeper
  split <;> rfl

theorem perform_evictionInterval (limiter : Limiter) (action : Action) :
    (limiter.perform action).2.1.evictionInterval = limiter.evictionInterval := by
  have hsleep (limiter : Limiter) (nanos : ℕ) :
      (limiter.sleep nanos).1.evictionInterval = limiter.evictionInterval := by
    rw [(elapses_sleep limiter nanos).frame]
  cases action with
  | request client =>
      show (limiter.request client).2.evictionInterval = _
      unfold request
      split <;> rfl
  | evict =>
      show limiter.evict.2.evictionInterval = _
      unfold evict
      split <;> rfl
  | advance nanos =>
      show (limiter.advance nanos).1.evictionInterval = _
      rw [(elapses_advance limiter nanos).frame]
  | sleep nanos => exact hsleep limiter nanos
  | shutdown =>
      show limiter.shutdown.1.evictionInterval = _
      unfold shutdown
      dsimp only
      split <;> exact stopSweeper_evictionInterval _
  | join nanos =>
      show (limiter.join nanos).2.1.evictionInterval = _
      unfold join
      split
      · dsimp only
        split
        · exact hsleep _ nanos
        · rfl
        · rfl
      · rfl
  | release => exact stopSweeper_evictionInterval _

/-- The interval stays what it was at the start. -/
theorem run_evictionInterval (limiter : Limiter) (actions : List Action) :
    (limiter.run actions).2.1.evictionInterval = limiter.evictionInterval := by
  induction actions generalizing limiter with
  | nil => rfl
  | cons action actions ih =>
      exact (ih (limiter.perform action).2.1).trans (perform_evictionInterval ..)

/-- A limiter with these settings reports this number of milliseconds for its
interval, in the log when it starts and on the status page at any time. -/
structure ReportsMillis (limits : Settings.RateLimit) (millis : ℕ) : Prop where
  log : (start limits).2
    = [.limiterStarted limits.enabled limits.rps limits.burst.toNat millis]
  page : ∀ actions, let limiter := ((start limits).1.run actions).2.1
    Http.Reply.limiterStatus limiter = .json 200 (Http.Reply.object
      [Http.Reply.member "enabled" (toString limiter.enabled),
       Http.Reply.member "rps" (Http.Reply.number limiter.registry.quota.rate),
       Http.Reply.member "burst" (toString limiter.registry.quota.burst.toNat),
       Http.Reply.member "eviction_interval_ms" (toString millis),
       Http.Reply.member "tracked_clients" (toString limiter.registry.size)])

/-- An interval below 2^64 nanoseconds is reported in whole milliseconds. -/
theorem reportsMillis {limits : Settings.RateLimit}
    (hword : limits.evictionInterval.nanos < wordBound) :
    ReportsMillis limits (limits.evictionInterval.nanos / nanosPerMilli) where
  log := by rw [← Duration.milliWord_of_le hword.le]; rfl
  page actions := by
    intro limiter
    have hkept : limiter.evictionInterval = limits.evictionInterval :=
      run_evictionInterval (start limits).1 actions
    unfold Http.Reply.limiterStatus
    rw [hkept, Duration.milliWord_of_le hword.le]

end Limiter

namespace Settings

open Variable (held?)

-- =================================================================== layers

/-- The document can be read, and this is its text. -/
def Source.Holds (source : Source) (text : String) : Prop :=
  ∃ bytes, source.bytes? = some bytes ∧ String.fromUTF8? bytes = some text

/-- The text is a document that says these settings. -/
def Fits (text : String) (settings : Settings) : Prop :=
  ∃ entries, Toml.parse? text = some entries ∧ Says entries settings

/-- The settings below the environment: the defaults, or what a document
says. -/
inductive Below : Option Source → Settings → Prop where
  | nothing : Below none default
  | document {source : Source} {text : String} {settings : Settings}
      (hholds : source.Holds text) (hfits : Fits text settings) :
      Below (some source) settings

/-- The variables of an environment that hold text. -/
def texted (environment : String → Option ByteArray) (name : String) : Option String :=
  (environment name).bind String.fromUTF8?

variable {source : Source} {source? : Option Source} {settings below : Settings}
  {text : String} {environment : String → Option ByteArray}

theorem holds_iff : source.Holds text ↔ source.bytes?.bind String.fromUTF8? = some text := by
  rw [Option.bind_eq_some_iff]
  rfl

theorem base_eq_ok_iff : base source? = .ok settings ↔ Below source? settings := by
  cases source? with
  | none =>
      constructor
      · intro hbase
        exact Except.ok.inj hbase ▸ .nothing
      · rintro ⟨⟩
        rfl
  | some source =>
      show ofSource source = .ok settings ↔ _
      unfold ofSource
      constructor
      · intro hbase
        split at hbase
        case h_1 => cases hbase
        case h_2 text htext =>
          cases hdocument : ofDocument text with
          | error cause => rw [hdocument] at hbase; cases hbase
          | ok said =>
              rw [hdocument] at hbase
              cases hbase
              exact .document (holds_iff.mpr htext) (ofDocument_eq_ok_iff.mp hdocument)
      · rintro ⟨⟩
        case document text hholds hfits =>
          rw [holds_iff.mp hholds]
          dsimp only
          rw [ofDocument_eq_ok_iff.mpr hfits]
          rfl

/-- Without settings below there is a document to blame. -/
theorem base_eq_error_iff {error : LoadError} :
    base source? = .error error ↔ ∃ source, source? = some source
      ∧ ((∀ text, ¬source.Holds text) ∧ error = .unreadable source.path
        ∨ ∃ text cause, source.Holds text ∧ ofDocument text = .error cause
          ∧ error = .unparsable source.path cause) := by
  cases source? with
  | none => simp [base]
  | some source =>
      simp only [Option.some.injEq, exists_eq_left']
      show ofSource source = .error error ↔ _
      unfold ofSource
      cases htext : source.bytes?.bind String.fromUTF8? with
      | none =>
          simp only [holds_iff, htext, reduceCtorEq, not_false_eq_true, implies_true,
            true_and, false_and, exists_const, or_false, Except.error.injEq]
          exact eq_comm
      | some text =>
          simp only [holds_iff, htext, Option.some.injEq]
          cases hdocument : ofDocument text with
          | ok said => simp [Except.mapError, hdocument]
          | error cause =>
              simp only [Except.mapError, Except.error.injEq]
              constructor
              · rintro rfl
                exact Or.inr ⟨text, cause, rfl, hdocument, rfl⟩
              · rintro (⟨hnone, -⟩ | ⟨other, cause', rfl, hcause, rfl⟩)
                · exact absurd rfl (hnone text)
                · rw [hdocument] at hcause
                  rw [Except.error.inj hcause]

/-- Loading is the layers and then the check. -/
theorem load_of_below (hbelow : Below source? below) :
    (load source? environment).1 = validated (layered (texted environment) below) := by
  unfold load
  rw [base_eq_ok_iff.mpr hbelow, ← overridden_fst]
  rfl

theorem load_of_error {error : LoadError} (hbase : base source? = .error error) :
    (load source? environment).1 = .error error := by
  unfold load
  rw [hbase]

theorem validated_eq_ok_iff {checked : Settings} :
    validated settings = .ok checked
      ↔ checked = settings ∧ settings.rateLimit.Runnable := by
  rw [← RateLimit.fault?_eq_none_iff_runnable]
  unfold validated
  cases settings.rateLimit.fault? <;> simp [eq_comm]

theorem validated_eq_invalid_iff {fault : Fault} :
    validated settings = .error (.invalid fault)
      ↔ settings.rateLimit.enabled = true ∧ settings.rateLimit.FirstWrong fault := by
  rw [← RateLimit.fault?_eq_some_iff]
  unfold validated
  cases settings.rateLimit.fault? <;> simp

-- ================================================================ outcomes

theorem load_eq_ok_iff :
    (load source? environment).1 = .ok settings ↔ ∃ below, Below source? below
      ∧ settings = layered (texted environment) below ∧ settings.rateLimit.Runnable := by
  constructor
  · intro hload
    cases hbase : base source? with
    | error error => rw [load_of_error hbase] at hload; cases hload
    | ok below =>
        have hbelow := base_eq_ok_iff.mp hbase
        rw [load_of_below hbelow] at hload
        obtain ⟨rfl, hrunnable⟩ := validated_eq_ok_iff.mp hload
        exact ⟨below, hbelow, rfl, hrunnable⟩
  · rintro ⟨below, hbelow, rfl, hrunnable⟩
    rw [load_of_below hbelow]
    exact validated_eq_ok_iff.mpr ⟨rfl, hrunnable⟩

theorem load_eq_invalid_iff {fault : Fault} :
    (load source? environment).1 = .error (.invalid fault) ↔ ∃ below, Below source? below
      ∧ (layered (texted environment) below).rateLimit.enabled = true
      ∧ (layered (texted environment) below).rateLimit.FirstWrong fault := by
  constructor
  · intro hload
    cases hbase : base source? with
    | error error =>
        rw [load_of_error hbase] at hload
        cases hload
        obtain ⟨source, -, ⟨-, hpath⟩ | ⟨text, cause, -, -, hpath⟩⟩ :=
          base_eq_error_iff.mp hbase
        all_goals cases hpath
    | ok below =>
        have hbelow := base_eq_ok_iff.mp hbase
        rw [load_of_below hbelow] at hload
        exact ⟨below, hbelow, validated_eq_invalid_iff.mp hload⟩
  · rintro ⟨below, hbelow, hwrong⟩
    rw [load_of_below hbelow]
    exact validated_eq_invalid_iff.mpr hwrong

/-- Any other error is one of the document. -/
theorem load_eq_error_iff {error : LoadError} (hother : ∀ fault, error ≠ .invalid fault) :
    (load source? environment).1 = .error error ↔ base source? = .error error := by
  constructor
  · intro hload
    cases hbase : base source? with
    | error error' => rwa [load_of_error hbase] at hload
    | ok below =>
        rw [load_of_below (base_eq_ok_iff.mp hbase)] at hload
        unfold validated at hload
        split at hload
        case h_1 => cases hload
        case h_2 fault _ => exact absurd (Except.error.inj hload).symm (hother fault)
  · exact load_of_error

theorem load_eq_unreadable_iff {path : String} :
    (load source? environment).1 = .error (.unreadable path) ↔ ∃ source,
      source? = some source ∧ source.path = path ∧ ∀ text, ¬source.Holds text := by
  rw [load_eq_error_iff (fun fault => by simp), base_eq_error_iff]
  constructor
  · rintro ⟨source, hsource, ⟨hnone, hpath⟩ | ⟨text, cause, -, -, hpath⟩⟩
    · exact ⟨source, hsource, (LoadError.unreadable.inj hpath).symm, hnone⟩
    · cases hpath
  · rintro ⟨source, hsource, rfl, hnone⟩
    exact ⟨source, hsource, Or.inl ⟨hnone, rfl⟩⟩

theorem load_eq_unparsable_iff {path : String} :
    (∃ cause, (load source? environment).1 = .error (.unparsable path cause))
      ↔ ∃ source text, source? = some source ∧ source.path = path
        ∧ source.Holds text ∧ ¬∃ settings, Fits text settings := by
  constructor
  · rintro ⟨cause, hload⟩
    rw [load_eq_error_iff (fun fault => by simp)] at hload
    obtain ⟨source, hsource, ⟨-, hpath⟩ | ⟨text, cause', hholds, hcause, hpath⟩⟩ :=
      base_eq_error_iff.mp hload
    · cases hpath
    · refine ⟨source, text, hsource, (LoadError.unparsable.inj hpath).1.symm, hholds, ?_⟩
      rintro ⟨settings, hfits⟩
      rw [ofDocument_eq_ok_iff.mpr hfits] at hcause
      cases hcause
  · rintro ⟨source, text, hsource, rfl, hholds, hnone⟩
    cases hdocument : ofDocument text with
    | ok settings => exact absurd ⟨settings, ofDocument_eq_ok_iff.mp hdocument⟩ hnone
    | error cause =>
        refine ⟨cause, (load_eq_error_iff fun fault => by simp).mpr ?_⟩
        exact base_eq_error_iff.mpr
          ⟨source, hsource, Or.inr ⟨text, cause, hholds, hdocument, rfl⟩⟩

/-- What a document says of the interval was read from a text. -/
theorem Below.interval_lt (hbelow : Below source? below) :
    below.rateLimit.evictionInterval.nanos < wordBound := by
  have hdefault : RateLimit.default.evictionInterval.nanos < wordBound := by
    simp [RateLimit.default, Duration.ofNanos, longestNanos, wordBound]
  cases hbelow with
  | nothing => exact hdefault
  | document hholds hfits =>
      obtain ⟨entries, -, hdoc⟩ := hfits
      have hinterval := hdoc.evictionInterval
      cases hstated : stated? entries "rate_limit" RateLimit.names "eviction_interval" with
      | none =>
          rw [hstated] at hinterval
          rwa [← Except.ok.inj hinterval]
      | some value =>
          rw [hstated] at hinterval
          obtain ⟨text, -, hduration⟩ := bind_eq_ok.mp hinterval
          unfold durationOf at hduration
          split at hduration
          case h_1 d hparse => exact Except.ok.inj hduration ▸ Duration.parse?_lt hparse
          case h_2 => cases hduration

theorem layered_interval_lt {lookup : String → Option String}
    (hbelow : Below source? below) :
    (layered lookup below).rateLimit.evictionInterval.nanos < wordBound := by
  unfold layered
  cases hheld : held? lookup .evictionInterval Duration.parse? with
  | none => exact hbelow.interval_lt
  | some d =>
      obtain ⟨text, -, hparse⟩ := Option.bind_eq_some_iff.mp hheld
      exact Duration.parse?_lt hparse

-- ============================================================== the theorem

/-- Loading ends in one of four ways. It gives the settings of a document, or
the defaults, with the overrides of the environment on top, if these can be run;
then the interval is shorter than 2^64 nanoseconds, and its whole milliseconds
are what is reported. Or the document cannot be read; or it does not fit; or
the limiter is enabled in the end, and the first of its settings that is wrong
is reported. -/
theorem load_layers (source? : Option Source) (environment : String → Option ByteArray) :
    let result := (load source? environment).1
    (∀ settings, result = .ok settings ↔ ∃ below, Below source? below
        ∧ settings = layered (texted environment) below ∧ settings.rateLimit.Runnable)
      ∧ (∀ settings, result = .ok settings →
        settings.rateLimit.evictionInterval.nanos ≤ 2 ^ 64 - 1
          ∧ Limiter.ReportsMillis settings.rateLimit
            (settings.rateLimit.evictionInterval.nanos / 1000000))
      ∧ (∀ path, result = .error (.unreadable path) ↔ ∃ source, source? = some source
        ∧ source.path = path ∧ ∀ text, ¬source.Holds text)
      ∧ (∀ path, (∃ cause, result = .error (.unparsable path cause))
        ↔ ∃ source text, source? = some source ∧ source.path = path
          ∧ source.Holds text ∧ ¬∃ settings, Fits text settings)
      ∧ ∀ fault, result = .error (.invalid fault) ↔ ∃ below, Below source? below
        ∧ (layered (texted environment) below).rateLimit.enabled = true
        ∧ (layered (texted environment) below).rateLimit.FirstWrong fault := by
  refine ⟨fun _ => load_eq_ok_iff, fun settings hload => ?_,
    fun _ => load_eq_unreadable_iff, fun _ => load_eq_unparsable_iff,
    fun _ => load_eq_invalid_iff⟩
  obtain ⟨below, hbelow, rfl, -⟩ := load_eq_ok_iff.mp hload
  have hword : (layered (texted environment) below).rateLimit.evictionInterval.nanos
      < wordBound := layered_interval_lt hbelow
  exact ⟨Nat.le_sub_one_of_lt hword, Limiter.reportsMillis hword⟩

-- =========================================================== environments

/-- The environment with these variables. -/
def environmentOf (pairs : List (String × String)) (name : String) :
    Option ByteArray :=
  (pairs.lookup name).map String.toUTF8

theorem fromUTF8?_toUTF8 (text : String) : String.fromUTF8? text.toUTF8 = some text :=
  dif_pos text.isValidUTF8

theorem texted_environmentOf (pairs : List (String × String)) :
    texted (environmentOf pairs) = (pairs.lookup ·) := by
  funext name
  unfold texted environmentOf
  cases pairs.lookup name with
  | none => rfl
  | some text => exact fromUTF8?_toUTF8 text

theorem texted_none : texted (fun _ => none) = fun _ => none :=
  rfl

/-- A limiter that is off may have a rate of zero. With a document, the rate is the
one of the environment, the port and the burst are those of the document, as the
port of the environment does not read, and the interval is the default. -/
theorem load_layers_of_disabled :
    let environment := environmentOf
      [("RATE_LIMITER_RPS", " 0 "), ("RATE_LIMITER_ENABLED", "false"), ("APP_PORT", "-1")]
    let text := "[server]\nport = 9000\n[rate_limit]\nrps = 20.0\nburst = 7\n"
    let source : Source := ⟨"app.toml", some text.toUTF8⟩
    let bare : Settings := ⟨.default, ⟨false, 0, 10, .ofNanos 60000000000⟩, .default⟩
    let settings : Settings := ⟨⟨9000⟩, ⟨false, 0, 7, .ofNanos 60000000000⟩, .default⟩
    (load none environment).1 = .ok bare ∧ Limiter.ReportsMillis bare.rateLimit 60000
      ∧ (load (some source) environment).1 = .ok settings
      ∧ Limiter.ReportsMillis settings.rateLimit 60000 := by
  intro environment text source bare settings
  let stated : Settings := ⟨⟨9000⟩, ⟨true, 20, 7, .ofNanos 60000000000⟩, .default⟩
  obtain ⟨hok, hreported, -⟩ := load_layers none environment
  obtain ⟨hok', hreported', -⟩ := load_layers (some source) environment
  have hlayered : bare = layered (texted environment) default := by
    rw [texted_environmentOf]
    decide +kernel
  have hlayered' : settings = layered (texted environment) stated := by
    rw [texted_environmentOf]
    decide +kernel
  have hdocument : ofDocument text = .ok stated := by decide +kernel
  have hbelow : Below (some source) stated :=
    .document ⟨_, rfl, fromUTF8?_toUTF8 text⟩ (ofDocument_eq_ok_iff.mp hdocument)
  have hload : (load none environment).1 = .ok bare :=
    (hok bare).mpr ⟨default, .nothing, hlayered, fun hon => by cases hon⟩
  have hload' : (load (some source) environment).1 = .ok settings :=
    (hok' settings).mpr ⟨stated, hbelow, hlayered', fun hon => by cases hon⟩
  have hmillis : (Duration.ofNanos 60000000000).nanos / 1000000 = 60000 := by
    decide +kernel
  exact ⟨hload, hmillis ▸ (hreported bare hload).2, hload',
    hmillis ▸ (hreported' settings hload').2⟩

-- ======================================================= what overrides break

/-- Whatever loads without the overrides loads with them if what comes out can
be run, and else it fails for the first thing that is wrong, never for another
reason. What does not read is passed over, so it takes a value of no use to
break what was in order, or turning on a limiter that was off. -/
theorem load_after_overrides (hbare : (load source? fun _ => none).1 = .ok below)
    (environment : String → Option ByteArray) :
    let settings := layered (texted environment) below
    ((load source? environment).1 = .ok settings ↔ settings.rateLimit.Runnable)
      ∧ (∀ error, (load source? environment).1 = .error error ↔ ∃ fault,
        error = .invalid fault ∧ settings.rateLimit.enabled = true
          ∧ settings.rateLimit.FirstWrong fault)
      ∧ (¬settings.rateLimit.Runnable → HoldsUseless (texted environment)
        ∨ below.rateLimit.enabled = false
          ∧ held? (texted environment) .enabled Variable.enabledOf? = some true) := by
  intro settings
  obtain ⟨bare, hbelow, hbare, hrunnable⟩ := load_eq_ok_iff.mp hbare
  have hsame : below = bare := hbare.trans (layered_of_unset fun _ => rfl)
  subst hsame
  have hload : (load source? environment).1 = validated settings := load_of_below hbelow
  rw [hload]
  refine ⟨?_, fun error => ?_, blame hrunnable⟩
  · exact validated_eq_ok_iff.trans (and_iff_right rfl)
  · constructor
    · intro herror
      cases error with
      | invalid fault => exact ⟨fault, rfl, validated_eq_invalid_iff.mp herror⟩
      | unreadable path =>
          unfold validated at herror
          split at herror <;> cases herror
      | unparsable path cause =>
          unfold validated at herror
          split at herror <;> cases herror
    · rintro ⟨fault, rfl, hwrong⟩
      exact validated_eq_invalid_iff.mpr hwrong

theorem load_default : (load none fun _ => none).1 = .ok default := by
  rw [load_of_below .nothing, texted_none, layered_of_unset fun _ => rfl]
  decide +kernel

/-- A rate of zero reads, and the default limiter cannot run with it. -/
theorem layered_zero_rate :
    layered (texted (environmentOf [("RATE_LIMITER_RPS", "0")])) default
      = ⟨.default, ⟨true, 0, 10, .ofNanos 60000000000⟩, .default⟩ := by
  rw [texted_environmentOf]
  decide +kernel

theorem not_rateUsable_zero (enabled : Bool) (burst : UInt32) (interval : Duration) :
    ¬RateLimit.RateUsable ⟨enabled, 0, burst, interval⟩ := by
  have hnot : ¬(0 : Binary64) < 0 := by decide +kernel
  exact fun husable => hnot husable.2

theorem load_after_overrides_of_zero_rate :
    (load none fun _ => none).1 = .ok default
      ∧ (load none (environmentOf [("RATE_LIMITER_RPS", "0")])).1
        = .error (.invalid (.invalidRate 0)) := by
  obtain ⟨-, hfails, -⟩ := load_after_overrides load_default
    (environmentOf [("RATE_LIMITER_RPS", "0")])
  rw [layered_zero_rate] at hfails
  exact ⟨load_default,
    (hfails _).mpr ⟨_, rfl, rfl, .rate (not_rateUsable_zero _ _ _)⟩⟩

/-- An override can keep a service from starting that starts without it. -/
theorem load_broken_by_zero_rate :
    ¬∀ source? environment settings, (load source? fun _ => none).1 = .ok settings →
      ∃ changed, (load source? environment).1 = .ok changed := by
  intro hnever
  obtain ⟨changed, hload⟩ := hnever none (environmentOf [("RATE_LIMITER_RPS", "0")])
    default load_default
  obtain ⟨below, hbelow, rfl, hrunnable⟩ := load_eq_ok_iff.mp hload
  cases hbelow
  rw [layered_zero_rate] at hrunnable
  exact not_rateUsable_zero _ _ _ (hrunnable rfl).1

end Settings

end Turnstile
