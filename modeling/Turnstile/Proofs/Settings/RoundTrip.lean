/-
Settings that are written read back.

The document of a layout is a table in which the settings that are written are
stated with their values, and no others are (Settings/Bare.lean). Each setting is
read from its value, so the document says what was written, and nothing else
(`ofSource_layout`). All settings can be written (`exists_document`).

Chain (settings): Distinct.lean, Fields.lean, Layers.lean and Duration/Whole.lean
below.
-/
import Mathlib
import Turnstile.Proofs.Duration.Whole
import Turnstile.Proofs.Settings.Distinct
import Turnstile.Proofs.Settings.Layers

namespace Turnstile.Settings

open Toml (Value Entries Pair Step Quoted SpellsFigures SpellsDate SpellsMoment SpellsTime
  SpellsValue)

variable {settings : Settings} {which : Setting} {group : Group} {item : Item}
  {items : List Item} {layout : Layout} {name : String}

-- ================================================================== fields

theorem wholeNumber_natCast {bound n : ℕ} (hn : n < bound) :
    wholeNumber bound (.integer n) = .ok n := by
  have hfits : (0 : ℤ) ≤ n ∧ (n : ℤ) < bound := by omega
  rw [wholeNumber, if_pos hfits]
  rfl

theorem portOf_value (settings : Settings) :
    portOf (Setting.port.value settings) = .ok settings.server.port := by
  have hread : wholeNumber 65536 (.integer settings.server.port.toNat) = .ok _ :=
    wholeNumber_natCast settings.server.port.toNat_lt
  exact (congrArg (Except.map UInt16.ofNat) hread).trans
    (congrArg Except.ok UInt16.ofNat_toNat)

theorem burstOf_value (settings : Settings) :
    burstOf (Setting.burst.value settings) = .ok settings.rateLimit.burst := by
  have hread : wholeNumber 4294967296 (.integer settings.rateLimit.burst.toNat) = .ok _ :=
    wholeNumber_natCast settings.rateLimit.burst.toNat_lt
  exact (congrArg (Except.map UInt32.ofNat) hread).trans
    (congrArg Except.ok UInt32.ofNat_toNat)

theorem ageOf_value (settings : Settings) :
    ageOf (Setting.maxAgeSeconds.value settings) = .ok settings.crossOrigin.maxAgeSeconds := by
  have hread : wholeNumber wordBound (.integer settings.crossOrigin.maxAgeSeconds.toNat) = .ok _ :=
    wholeNumber_natCast settings.crossOrigin.maxAgeSeconds.toNat_lt
  exact (congrArg (Except.map UInt64.ofNat) hread).trans
    (congrArg Except.ok UInt64.ofNat_toNat)

theorem texts_value (settings : Settings) :
    texts (Setting.allowedOrigins.value settings)
      = .ok settings.crossOrigin.allowedOrigins := by
  have hmap (origins : List String) :
      (origins.map Value.text).mapM Settings.text = (.ok origins : Except Misfit _) := by
    induction origins with
    | nil => rfl
    | cons origin origins ih =>
        rw [List.map_cons, List.mapM_cons, ih]
        rfl
  exact hmap _

theorem duration_value (hwritable : Writable settings) :
    duration (Setting.evictionInterval.value settings)
      = .ok settings.rateLimit.evictionInterval := by
  have hparse := Duration.parse?_nanos hwritable.interval
  have hnanos : Duration.ofNanos settings.rateLimit.evictionInterval.nanos
      = settings.rateLimit.evictionInterval := by
    have hmin := Nat.min_eq_left settings.rateLimit.evictionInterval.le_longest
    simp only [Duration.ofNanos, hmin]
  have htext : text (Setting.evictionInterval.value settings)
      = .ok (String.ofList (Setting.intervalText settings.rateLimit.evictionInterval)) := rfl
  unfold duration
  rw [htext]
  dsimp only [bind, Except.bind]
  rw [durationOf, Setting.intervalText, hparse, hnanos]
  rfl

/-- A field that reads its value, if it is written, has that value, and else its
default. -/
theorem readOr_ite {α : Type} {read : Value → Except Misfit α} {value : Value}
    {before after : α} {p : Prop} [Decidable p] (hread : read value = .ok after) :
    readOr before read (if p then some value else none)
      = .ok (if p then after else before) := by
  split_ifs
  · exact hread
  · rfl

-- ============================================================== the outcome

/-- The document says what was written. -/
theorem Layout.Writes.exists_table (hwritable : Writable settings)
    (hwrites : layout.Writes settings) :
    ∃ entries, Toml.parse? (String.ofList layout.text) = some entries
      ∧ Says entries (layout.outcome settings) := by
  obtain ⟨entries, hparse, htable, hstated⟩ := hwrites.exists_entries hwritable
  have hmembers (group : Group) (value : Value)
      (hvalue : entries.find? group.name = some value) :
      (members group.fieldNames value).isSome = true := by
    obtain ⟨origin?, inner, hfound⟩ := htable group
    rw [hvalue] at hfound
    obtain ⟨origin, -, horigin⟩ := Option.map_eq_some_iff.mp hfound.symm
    rw [← horigin]
    rfl
  refine ⟨entries, hparse, ?_⟩
  exact {
    groups := by
      intro group hgroup value hvalue
      simp only [groupNames, List.mem_cons, List.not_mem_nil, or_false] at hgroup
      rcases hgroup with rfl | rfl | rfl
      · exact hmembers .server value hvalue
      · exact hmembers .rateLimit value hvalue
      · exact hmembers .crossOrigin value hvalue
    port := (congrArg _ (hstated .port)).trans (readOr_ite (portOf_value settings))
    enabled := (congrArg _ (hstated .enabled)).trans (readOr_ite rfl)
    rps := (congrArg _ (hstated .rps)).trans (readOr_ite rfl)
    burst := (congrArg _ (hstated .burst)).trans (readOr_ite (burstOf_value settings))
    evictionInterval :=
      (congrArg _ (hstated .evictionInterval)).trans (readOr_ite (duration_value hwritable))
    allowedOrigins :=
      (congrArg _ (hstated .allowedOrigins)).trans (readOr_ite (texts_value settings))
    maxAgeSeconds :=
      (congrArg _ (hstated .maxAgeSeconds)).trans (readOr_ite (ageOf_value settings)) }

theorem Layout.Writes.ofDocument_text (hwritable : Writable settings)
    (hwrites : layout.Writes settings) :
    ofDocument (String.ofList layout.text) = .ok (layout.outcome settings) :=
  ofDocument_eq_ok_iff.mpr (hwrites.exists_table hwritable)

/-- Settings that are written in a document, in whatever way, read back: each
setting that is written has the value that was written, and each other one its
default. -/
theorem ofSource_layout (hwritable : Writable settings) (hwrites : layout.Writes settings)
    (path : String) :
    ofSource ⟨path, some (String.ofList layout.text).toUTF8⟩
      = .ok (layout.outcome settings) := by
  have hdocument := hwrites.ofDocument_text hwritable
  unfold ofSource
  rw [Option.bind_some, fromUTF8?_toUTF8]
  dsimp only
  rw [hdocument]
  rfl

/-- Settings that are none of the defaults. -/
def unusual : Settings :=
  ⟨⟨80⟩, ⟨false, 20, 5, .ofNanos 250⟩, ⟨["é"], 600⟩⟩

/-- The three groups in three ways, among things of no meaning. -/
def mixed : Layout where
  root :=
    [.other ⟨"since".toList, ["since"], "2024-02-29 07:30:00Z".toList, .moment⟩,
     .dotted .server (.setting .port "80".toList),
     .other ⟨"owners".toList, ["owners"], "[-1, \x7bname.last = true\x7d]".toList,
       .array [.integer (-1),
         .table .braces [("name", .table .dotted [("last", .boolean true)])]]⟩,
     .braces .crossOrigin
      [.setting .allowedOrigins "[\"\\u00e9\"]".toList,
       .other ⟨"on".toList, ["on"], "true".toList, .boolean true⟩]]
  blocks :=
    [.other false "log".toList ["log"] [],
     .below .rateLimit true "extra".toList ["extra"]
      [⟨"on".toList, ["on"], "07:30:00".toList, .moment⟩],
     .headed .rateLimit
      [.setting .rps "2.0E1".toList, .setting .evictionInterval "\"250ns\"".toList],
     .below .server false "extra".toList ["extra"] []]

theorem unusual_writable : Writable unusual where
  rate := by decide +kernel
  interval := by decide +kernel
  age := by decide +kernel

theorem spellsDate_leap : SpellsDate "2024-02-29".toList := by
  have hyear : SpellsFigures 4 "2024".toList 2024 := ⟨rfl, List.all_eq_true.mp rfl, rfl⟩
  have hmonth : SpellsFigures 2 "02".toList 2 := ⟨rfl, List.all_eq_true.mp rfl, rfl⟩
  have hday : SpellsFigures 2 "29".toList 29 := ⟨rfl, List.all_eq_true.mp rfl, rfl⟩
  exact .day hyear hmonth hday (by decide) (by decide)

theorem spellsTime_morning : SpellsTime "07:30:00".toList := by
  have hhour : SpellsFigures 2 "07".toList 7 := ⟨rfl, List.all_eq_true.mp rfl, rfl⟩
  have hminute : SpellsFigures 2 "30".toList 30 := ⟨rfl, List.all_eq_true.mp rfl, rfl⟩
  have hsecond : SpellsFigures 2 "00".toList 0 := ⟨rfl, List.all_eq_true.mp rfl, rfl⟩
  exact .time hhour hminute hsecond (by decide) (by decide) (by decide) .none

/-- A key of one bare part, with a value of the grammar. -/
theorem spelled_bare {name : String} {text : List Char} {value : Value} {depth : ℕ}
    (nonempty : name.toList ≠ []) (hbare : name.toList.all Toml.isBare = true)
    (hvalue : SpellsValue depth text value) :
    (Pair.mk name.toList [name] text value).Spelled depth where
  key := .last (spellsPart_bare nonempty hbare)
  short := by simp [Toml.longestKey]
  value := hvalue.reads

theorem outside_singleton (hname : ∀ group : Group, name ≠ group.name) : Outside [name] := by
  intro first hfirst group
  cases hfirst
  exact hname group

theorem mixed_root : ∀ line ∈ mixed.root, line.Spelled unusual := by
  have hsince : SpellsMoment "2024-02-29 07:30:00Z".toList :=
    .both spellsDate_leap (.inr (.inr rfl)) spellsTime_morning (.zero (.inl rfl))
  have hport : Setting.port.Written unusual "80".toList :=
    ⟨['8', '0'], .other (.next rfl (.one rfl)) (by simp), rfl⟩
  have howners : SpellsValue Toml.deepestNesting "[-1, \x7bname.last = true\x7d]".toList
      (.array [.integer (-1),
        .table .braces [("name", .table .dotted [("last", .boolean true)])]]) := by
    have hnumber : Toml.SpellsInteger ['-', '1'] (-1) :=
      .decimal .minus (.other (.one rfl) (by decide))
    have hkey : Toml.SpellsKey ("name".toList ++ '.' :: "last".toList) ["name", "last"] :=
      .more (spellsPart_bare (by simp) rfl) (.last (spellsPart_bare (by simp) rfl))
    have htable : SpellsValue 78 "\x7bname.last = true\x7d".toList
        (.table .braces [("name", .table .dotted [("last", .boolean true)])]) :=
      @SpellsValue.braces 77 [⟨_, _, "true".toList, .boolean true⟩]
        (List.forall_mem_singleton.mpr ⟨hkey, by simp [Toml.longestKey]⟩)
        (List.forall_mem_singleton.mpr (.boolean true)) (List.nodup_singleton _)
    exact @SpellsValue.array 78 [(['-', '1'], .integer (-1)), (_, _)]
      (List.forall_mem_cons.mpr ⟨.integer hnumber (by decide),
        List.forall_mem_singleton.mpr htable⟩)
  have horigins : Setting.allowedOrigins.Written unusual "[\"\\u00e9\"]".toList :=
    ⟨["\"\\u00e9\"".toList], rfl, .cons (.quoted (.four ⟨rfl, rfl⟩ .nil)) .nil⟩
  simp only [mixed, List.forall_mem_cons]
  refine ⟨⟨spelled_bare (by simp) rfl (.moment hsince), ?_⟩,
    ⟨hport, by simp [Item.pair, Toml.longestKey]⟩,
    ⟨spelled_bare (by simp) rfl howners, ?_⟩, ⟨?_, ?_⟩, List.forall_mem_nil _⟩
  · exact outside_singleton fun group => by cases group <;> simp [Group.name]
  · exact outside_singleton fun group => by cases group <;> simp [Group.name]
  · exact List.forall_mem_cons.mpr ⟨horigins, List.forall_mem_cons.mpr
      ⟨spelled_bare (by simp) rfl (.boolean true), List.forall_mem_nil _⟩⟩
  · exact together_of_distinct (by simp [Item.other?]) (by decide)

theorem mixed_blocks : ∀ block ∈ mixed.blocks, block.Spelled unusual := by
  have hrps : Setting.rps.Written unusual "2.0E1".toList :=
    ⟨⟨false, 20, 0⟩, .pointed .none (.other (.one rfl) (by decide)) (.one rfl)
      (.exponent (.inr rfl) .none (.one rfl)), by decide +kernel⟩
  have hinterval : Setting.evictionInterval.Written unusual "\"250ns\"".toList := by
    have hplain : Toml.Escaped ['2', '5', '0', 'n', 's'] ['2', '5', '0', 'n', 's'] :=
      .of_plain (by simp [Toml.isPrintable])
    exact .quoted hplain
  have hextra : Toml.SpellsKey "extra".toList ["extra"] :=
    .last (spellsPart_bare (by simp) rfl)
  simp only [mixed, List.forall_mem_cons]
  refine ⟨⟨.last (spellsPart_bare (by simp) rfl), by simp [Toml.longestKey], ?_,
      List.forall_mem_nil _⟩,
    ⟨hextra, by simp [Toml.longestKey], ?_, ?_⟩,
    List.forall_mem_cons.mpr ⟨hrps, List.forall_mem_cons.mpr
      ⟨hinterval, List.forall_mem_nil _⟩⟩,
    ⟨hextra, by simp [Toml.longestKey], ?_, List.forall_mem_nil _⟩, List.forall_mem_nil _⟩
  · exact outside_singleton fun group => by cases group <;> simp [Group.name]
  · simp [Group.fieldNames, RateLimit.names]
  · exact List.forall_mem_cons.mpr
      ⟨spelled_bare (by simp) rfl (.moment (.time spellsTime_morning)), List.forall_mem_nil _⟩
  · simp [Group.fieldNames, Server.names]

theorem mixed_spelled : mixed.Spelled unusual where
  root := mixed_root
  blocks := mixed_blocks
  once := by intro group; cases group <;> decide
  closed := by intro group; cases group <;> first | exact .inl rfl | exact .inr rfl
  tables := by
    intro group items hitems
    cases group <;> cases List.mem_singleton.mp hitems
    · exact .of_settings rfl (by decide) (by decide)
    · exact .of_settings rfl (by decide) (by decide)
    · exact ⟨by decide, by decide, by simp [Item.other?, Group.fieldNames, CrossOrigin.names]⟩

theorem mixed_writes : mixed.Writes unusual := by
  refine mixed_spelled.writes unusual_writable ?_
  exact {
    outside := by decide
    inside := by intro group; cases group <;> decide
    under := by
      simp only [mixed, List.forall_mem_cons]
      exact ⟨by decide, by decide, by decide, by decide, List.forall_mem_nil _⟩ }

/-- Each setting is read from where it stands. -/
theorem ofSource_layout_of_mixed :
    Writable unusual ∧ mixed.Writes unusual
      ∧ ofSource ⟨"app.toml", some (
          "since = 2024-02-29 07:30:00Z\nserver.port = 80\n" ++
          "owners = [-1, \x7bname.last = true\x7d]\n" ++
          "cors = \x7ballowed_origins = [\"\\u00e9\"], on = true\x7d\n" ++
          "[log]\n[[rate_limit.extra]]\non = 07:30:00\n" ++
          "[rate_limit]\nrps = 2.0E1\neviction_interval = \"250ns\"\n[server.extra]\n").toUTF8⟩
        = .ok ⟨⟨80⟩, ⟨true, 20, 10, .ofNanos 250⟩, ⟨["é"], 300⟩⟩ := by
  refine ⟨unusual_writable, mixed_writes, ?_⟩
  have htext : String.ofList mixed.text =
      "since = 2024-02-29 07:30:00Z\nserver.port = 80\n" ++
          "owners = [-1, \x7bname.last = true\x7d]\n" ++
          "cors = \x7ballowed_origins = [\"\\u00e9\"], on = true\x7d\n" ++
          "[log]\n[[rate_limit.extra]]\non = 07:30:00\n" ++
          "[rate_limit]\nrps = 2.0E1\neviction_interval = \"250ns\"\n[server.extra]\n" := by
    decide +kernel
  rw [← htext]
  exact ofSource_layout unusual_writable mixed_writes "app.toml"

-- ================================================= all settings can be written

/-- Every setting has a text. -/
theorem Setting.exists_text (hfinite : settings.rateLimit.rps.isFinite = true)
    (which : Setting) : ∃ text, which.Written settings text := by
  have hquoted (text : List Char) : ∃ written, Quoted written text := by
    obtain ⟨body, hbody⟩ := Toml.exists_escaped text
    exact ⟨_, .quoted hbody⟩
  cases which with
  | port => exact ⟨_, Toml.spellsNatural_decimalDigits _⟩
  | enabled => exact ⟨_, rfl⟩
  | rps =>
      obtain ⟨text, d, hspelled, hround⟩ := Toml.exists_spellsFloat hfinite
      exact ⟨text, d, hspelled, hround⟩
  | burst => exact ⟨_, Toml.spellsNatural_decimalDigits _⟩
  | evictionInterval => exact hquoted _
  | allowedOrigins =>
      choose written hwritten using fun origin : String => hquoted origin.toList
      refine ⟨_, settings.crossOrigin.allowedOrigins.map written, rfl, ?_⟩
      rw [List.forall₂_map_left_iff]
      exact List.forall₂_same.mpr fun origin _ => hwritten origin
  | maxAgeSeconds => exact ⟨_, Toml.spellsNatural_decimalDigits _⟩

/-- A group's settings, in order. -/
def Group.fields : Group → List Setting
  | .server => [.port]
  | .rateLimit => [.enabled, .rps, .burst, .evictionInterval]
  | .crossOrigin => [.allowedOrigins, .maxAgeSeconds]

theorem Group.fields_own (group : Group) :
    (∀ which ∈ group.fields, which.group = group) ∧ group.fields.Nodup := by
  cases group <;> decide

/-- All settings under the headers of their groups. -/
def complete (text : Setting → List Char) : Layout where
  root := []
  blocks := [.server, .rateLimit, .crossOrigin].map fun group =>
    .headed group (group.fields.map fun which => .setting which (text which))

theorem complete_spelled {text : Setting → List Char}
    (htext : ∀ which : Setting, which.Written settings (text which)) :
    (complete text).Spelled settings where
  root := List.forall_mem_nil _
  blocks := by
    intro block hblock
    obtain ⟨group, -, rfl⟩ := List.mem_map.mp hblock
    intro item hitem
    obtain ⟨which, -, rfl⟩ := List.mem_map.mp hitem
    exact htext which
  once := by intro group; cases group <;> exact le_rfl
  closed := fun _ => .inl rfl
  tables := by
    intro group items hitems
    have hfields : items = group.fields.map fun which => .setting which (text which) := by
      cases group <;> exact List.mem_singleton.mp hitems
    have hsettings : items.filterMap Item.setting? = group.fields := by
      rw [hfields]
      cases group <;> rfl
    have hothers : items.filterMap Item.other? = [] := by
      rw [hfields]
      cases group <;> rfl
    have hown := group.fields_own
    rw [← hsettings] at hown
    exact .of_settings hothers hown.1 hown.2

theorem complete_distinct (text : Setting → List Char) : (complete text).Distinct where
  outside := List.nodup_nil
  inside := by intro group; cases group <;> exact List.nodup_nil
  under := by
    intro block hblock
    obtain ⟨group, -, rfl⟩ := List.mem_map.mp hblock
    cases group <;> exact List.nodup_nil

/-- Some document says all the settings. -/
theorem exists_document (hwritable : Writable settings) :
    ∃ text, ofDocument text = .ok settings := by
  choose text htext using Setting.exists_text hwritable.rate
  have hwrites := (complete_spelled htext).writes hwritable (complete_distinct text)
  exact ⟨_, hwrites.ofDocument_text hwritable⟩

end Turnstile.Settings
