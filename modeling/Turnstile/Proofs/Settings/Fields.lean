/-
What a document says, field by field.

The reader goes through the entries of a table and changes a record, one field
for each known key. What comes out is told field by field: a field has the
value that stands under its key, or what it had before (`Decides.readEntries`),
and reading fails only where a value under a known key does not fit
(`readEntries_ok`). The order of the entries does not matter, because no key
stands twice. A group that is an array is a table with the names of the fields
in front of its elements (`readGroup_eq`).

So a document fits exactly if what it says of each group and each field fits,
and then it has one meaning (`ofDocument_eq_ok_iff`).

Chain (settings): Toml/Tidy.lean below; Settings/Layers.lean and
Settings/RoundTrip.lean above.
-/
import Mathlib
import Turnstile.Proofs.Toml.Tidy
import Turnstile.Settings.Document

namespace Turnstile.Settings

open Toml (Value Entries)

-- ============================================================== one record

section

variable {σ α : Type} {fields : List (Field σ)} {name : String} {get : σ → α}
  {read : Value → Except Misfit α} {entries : Entries} {record changed : σ}

/-- The field of this name is what `get` gives, read by `read`, and no other
field changes it. -/
structure Decides (fields : List (Field σ)) (name : String) (get : σ → α)
    (read : Value → Except Misfit α) : Prop where
  own : ∃ change, fields.lookup name = some change
    ∧ ∀ value record, (change value record).map get = read value
  other : ∀ key change, key ≠ name → fields.lookup key = some change →
    ∀ value record changed, change value record = .ok changed → get changed = get record

/-- The value that stands somewhere, or the one from before if there is none. -/
def readOr (before : α) (read : Value → Except Misfit α) (value? : Option Value) :
    Except Misfit α :=
  match value? with
  | none => .ok before
  | some value => read value

/-- What one entry does to a record. -/
def readEntry (fields : List (Field σ)) (entry : String × Value) (record : σ) :
    Except Misfit σ :=
  match fields.lookup entry.1 with
  | some change => change entry.2 record
  | none => .ok record

theorem readEntries_cons (fields : List (Field σ)) (entry : String × Value)
    (entries : Entries) (record : σ) :
    readEntries fields (entry :: entries) record
      = (readEntry fields entry record).bind (readEntries fields entries) :=
  rfl

theorem bind_eq_ok {ε α β : Type} {x : Except ε α} {f : α → Except ε β} {b : β} :
    x.bind f = .ok b ↔ ∃ a, x = .ok a ∧ f a = .ok b := by
  cases x with
  | error fault => simp [Except.bind]
  | ok a => simp [Except.bind]

/-- An entry under another name leaves the field alone. -/
theorem Decides.readEntry_other (hfield : Decides fields name get read)
    {entry : String × Value} (hother : entry.1 ≠ name)
    (hread : readEntry fields entry record = .ok changed) : get changed = get record := by
  unfold readEntry at hread
  split at hread
  case h_1 change hlookup => exact hfield.other entry.1 change hother hlookup _ _ _ hread
  case h_2 => rw [Except.ok.inj hread]

theorem Decides.readEntry_own (hfield : Decides fields name get read) (value : Value)
    (record : σ) : (readEntry fields (name, value) record).map get = read value := by
  obtain ⟨change, hlookup, hchange⟩ := hfield.own
  unfold readEntry
  rw [hlookup]
  exact hchange value record

/-- After the entries are read a field has the value under its name, or what it
had before. -/
theorem Decides.readEntries (hfield : Decides fields name get read)
    (hdistinct : entries.Distinct) (hread : readEntries fields entries record = .ok changed) :
    readOr (get record) read (entries.find? name) = .ok (get changed) := by
  induction entries generalizing record with
  | nil => exact congrArg (Except.ok ∘ get) (Except.ok.inj hread)
  | cons entry entries ih =>
      obtain ⟨hfresh, hrest⟩ := List.nodup_cons.mp hdistinct
      rw [readEntries_cons] at hread
      obtain ⟨next, hnext, hmore⟩ := bind_eq_ok.mp hread
      have hlater := ih hrest hmore
      rw [Entries.find?_cons]
      by_cases hown : name = entry.1
      · subst hown
        have habsent : Entries.find? entry.1 entries = none :=
          Entries.find?_eq_none_iff.mpr hfresh
        rw [habsent] at hlater
        have hvalue := hfield.readEntry_own entry.2 record
        rw [hnext] at hvalue
        rw [if_pos rfl]
        exact hvalue.symm.trans hlater
      · rw [if_neg hown, ← hfield.readEntry_other (Ne.symm hown) hnext]
        exact hlater

theorem readEntries_ok_of_each
    (hfits : ∀ entry ∈ entries, ∀ record, ∃ changed,
      readEntry fields entry record = .ok changed) (record : σ) :
    ∃ changed, Settings.readEntries fields entries record = .ok changed := by
  induction entries generalizing record with
  | nil => exact ⟨record, rfl⟩
  | cons entry entries ih =>
      obtain ⟨next, hnext⟩ := hfits entry (List.mem_cons_self ..) record
      rw [readEntries_cons, hnext]
      exact ih (fun other hother => hfits other (List.mem_cons_of_mem _ hother)) next

-- ============================================================== one group

/-- The entries of a value that is a group of settings. An array has the names
of the fields in front of its elements. -/
def members (names : List String) : Value → Option Entries
  | .table _ entries => some entries
  | .array values => some (names.zip values)
  | .tables elements => some (names.zip (elements.map (.table .header)))
  | .moment => some []
  | _ => none

/-- What a document says of a field of a group. -/
def stated? (entries : Entries) (group : String) (names : List String)
    (name : String) : Option Value :=
  ((entries.find? group).bind (members names)).bind (Entries.find? name)

theorem lookup_of_mem {field : Field σ} (hnames : (fields.map Prod.fst).Nodup)
    (hmem : field ∈ fields) : fields.lookup field.1 = some field.2 := by
  obtain ⟨front, back, rfl⟩ := List.append_of_mem hmem
  refine List.lookup_eq_some_iff.mpr ⟨front, back, rfl, fun other hother => ?_⟩
  rw [List.map_append, List.map_cons] at hnames
  refine bne_iff_ne.mpr fun hsame => ?_
  exact List.disjoint_of_nodup_append hnames (List.mem_map_of_mem hother)
    (hsame ▸ List.mem_cons_self ..)

/-- An array is read like the table with the names in front. -/
theorem readInOrder_eq (hnames : (fields.map Prod.fst).Nodup) (values : List Value)
    (record : σ) :
    readInOrder fields values record
      = readEntries fields ((fields.map Prod.fst).zip values) record := by
  suffices hpart : ∀ part : List (Field σ), (∀ field ∈ part, field ∈ fields) →
      ∀ values record, (part.zip values).foldlM
          (fun record pair => pair.1.2 pair.2 record) record
        = readEntries fields ((part.map Prod.fst).zip values) record from
    hpart fields (fun _ hmem => hmem) values record
  intro part
  induction part with
  | nil => intro _ values record; rfl
  | cons field part ih =>
      intro hpart values record
      cases values with
      | nil => rfl
      | cons value values =>
          have hrest := ih (fun other hother => hpart other (List.mem_cons_of_mem _ hother))
          have hown : readEntry fields (field.1, value) record = field.2 value record := by
            unfold readEntry
            rw [lookup_of_mem hnames (hpart field (List.mem_cons_self ..))]
          rw [List.map_cons, List.zip_cons_cons, List.zip_cons_cons, readEntries_cons,
            hown, List.foldlM_cons]
          exact congrArg _ (funext fun next => hrest values next)

theorem readGroup_eq (hnames : (fields.map Prod.fst).Nodup) (record : σ) (value : Value) :
    readGroup fields record value
      = match members (fields.map Prod.fst) value with
        | some entries => readEntries fields entries record
        | none => .error none := by
  cases value with
  | array values => exact readInOrder_eq hnames values record
  | tables elements => exact readInOrder_eq hnames _ record
  | _ => rfl

theorem keys_zip_sublist (names : List String) (values : List Value) :
    (Entries.keys (names.zip values)).Sublist names := by
  induction names generalizing values with
  | nil => exact List.Sublist.refl _
  | cons name names ih =>
      cases values with
      | nil => exact List.nil_sublist _
      | cons value values => exact (ih values).cons_cons name

theorem distinct_members {names : List String} {value : Value} (hnames : names.Nodup)
    (htidy : value.Tidy) {entries : Entries} (hmembers : members names value = some entries) :
    entries.Distinct := by
  have hzip (values : List Value) : Entries.Distinct (names.zip values) :=
    hnames.sublist (keys_zip_sublist names values)
  cases value with
  | table origin entries' => exact Option.some.inj hmembers ▸ htidy
  | array values => exact Option.some.inj hmembers ▸ hzip _
  | tables elements => exact Option.some.inj hmembers ▸ hzip _
  | moment => exact Option.some.inj hmembers ▸ Entries.distinct_nil
  | _ => cases hmembers

theorem mem_of_lookup {key : String} {change : Value → σ → Except Misfit σ}
    (hlookup : fields.lookup key = some change) : (key, change) ∈ fields := by
  obtain ⟨front, back, rfl, -⟩ := List.lookup_eq_some_iff.mp hlookup
  exact List.mem_append_right _ (List.mem_cons_self ..)

/-- A field is decided if it is in the list, and no other in the list changes it. -/
theorem decides_of_mem (hnames : (fields.map Prod.fst).Nodup)
    {change : Value → σ → Except Misfit σ} (hmem : (name, change) ∈ fields)
    (hown : ∀ value record, (change value record).map get = read value)
    (hother : ∀ field ∈ fields, field.1 ≠ name → ∀ value record changed,
      field.2 value record = .ok changed → get changed = get record) :
    Decides fields name get read where
  own := ⟨change, lookup_of_mem hnames hmem, hown⟩
  other _ _ hne hlookup := hother _ (mem_of_lookup hlookup) hne

/-- A value that fits its field is taken into any record. -/
theorem Decides.takes (hfield : Decides fields name get read) {before after : α}
    (hsaid : readOr before read (entries.find? name) = .ok after) {value : Value}
    (hfind : entries.find? name = some value) (record : σ) :
    ∃ changed, readEntry fields (name, value) record = .ok changed := by
  rw [hfind] at hsaid
  have hread := (hfield.readEntry_own value record).trans hsaid
  cases htaken : readEntry fields (name, value) record with
  | ok changed => exact ⟨changed, rfl⟩
  | error misfit => rw [htaken] at hread; cases hread

/-- Reading succeeds if the values under the names of fields are taken. -/
theorem readEntries_ok (hdistinct : entries.Distinct)
    (htakes : ∀ name ∈ fields.map Prod.fst, ∀ value, entries.find? name = some value →
      ∀ record, ∃ changed, readEntry fields (name, value) record = .ok changed)
    (record : σ) : ∃ changed, Settings.readEntries fields entries record = .ok changed := by
  refine readEntries_ok_of_each (fun entry hmem record => ?_) record
  cases hlookup : fields.lookup entry.1 with
  | none =>
      refine ⟨record, ?_⟩
      unfold readEntry
      rw [hlookup]
  | some change =>
      have hname := List.mem_map_of_mem (f := Prod.fst) (mem_of_lookup hlookup)
      exact htakes entry.1 hname entry.2 (Entries.find?_of_mem hdistinct hmem) record

/-- A group that was read is one, and the fields of what came out have the
values under their names, or what they had before. -/
theorem Decides.readGroup (hfield : Decides fields name get read)
    (hnames : (fields.map Prod.fst).Nodup) (htidy : entries.Tidy) {group : String}
    {before after : σ}
    (hread : readOr before (Settings.readGroup fields before) (entries.find? group)
      = .ok after) :
    readOr (get before) read (stated? entries group (fields.map Prod.fst) name)
      = .ok (get after) := by
  unfold stated?
  cases hfind : entries.find? group with
  | none =>
      rw [hfind] at hread
      exact congrArg (Except.ok ∘ get) (Except.ok.inj hread)
  | some value =>
      rw [hfind, readOr, readGroup_eq hnames] at hread
      rw [Option.bind_some]
      cases hmembers : members (fields.map Prod.fst) value with
      | none => rw [hmembers] at hread; cases hread
      | some inner =>
          rw [hmembers] at hread
          exact hfield.readEntries (distinct_members hnames (htidy.find? hfind) hmembers)
            hread

theorem isSome_members_of_readGroup (hnames : (fields.map Prod.fst).Nodup)
    {group : String} {before after : σ}
    (hread : readOr before (readGroup fields before) (entries.find? group) = .ok after)
    {value : Value} (hfind : entries.find? group = some value) :
    (members (fields.map Prod.fst) value).isSome = true := by
  rw [hfind, readOr, readGroup_eq hnames] at hread
  cases hmembers : members (fields.map Prod.fst) value with
  | none => rw [hmembers] at hread; cases hread
  | some inner => rfl

/-- A group whose members are taken can be read. -/
theorem readGroup_ok (hnames : (fields.map Prod.fst).Nodup) (htidy : entries.Tidy)
    {group : String} {value : Value} (hfind : entries.find? group = some value)
    (hmembers : (members (fields.map Prod.fst) value).isSome = true)
    (htakes : ∀ inner, (entries.find? group).bind (members (fields.map Prod.fst))
        = some inner → ∀ name ∈ fields.map Prod.fst, ∀ value,
      inner.find? name = some value →
      ∀ record, ∃ changed, readEntry fields (name, value) record = .ok changed)
    (record : σ) : ∃ changed, readGroup fields record value = .ok changed := by
  obtain ⟨inner, hinner⟩ := Option.isSome_iff_exists.mp hmembers
  rw [readGroup_eq hnames, hinner]
  refine readEntries_ok (distinct_members hnames (htidy.find? hfind) hinner)
    (htakes inner ?_) record
  rw [hfind, Option.bind_some, hinner]

end

-- ========================================================= the three groups

/-- The names of the server's fields. -/
def Server.names : List String :=
  ["port"]

/-- The names of the limiter's fields. -/
def RateLimit.names : List String :=
  ["enabled", "rps", "burst", "eviction_interval"]

/-- The names of the fields of the cross-origin rules. -/
def CrossOrigin.names : List String :=
  ["allowed_origins", "max_age_seconds"]

/-- The names of the groups, each with those of its fields. -/
def groupNames : List (String × List String) :=
  [("server", Server.names), ("rate_limit", RateLimit.names), ("cors", CrossOrigin.names)]

/-- A port. -/
def portOf (value : Value) : Except Misfit UInt16 :=
  (wholeNumber 65536 value).map UInt16.ofNat

/-- A number of requests. -/
def burstOf (value : Value) : Except Misfit UInt32 :=
  (wholeNumber 4294967296 value).map UInt32.ofNat

/-- A number of seconds. -/
def ageOf (value : Value) : Except Misfit UInt64 :=
  (wholeNumber wordBound value).map UInt64.ofNat

/-- A field that puts what it reads elsewhere leaves `get` alone. -/
theorem keeps {σ α β : Type} {get : σ → α} {read : Value → Except Misfit β}
    {set : β → σ → σ} (hset : ∀ b record, get (set b record) = get record)
    (value : Value) (record changed : σ)
    (hchange : (read value).bind (fun b => .ok (set b record)) = .ok changed) :
    get changed = get record := by
  obtain ⟨b, -, hb⟩ := bind_eq_ok.mp hchange
  rw [← Except.ok.inj hb]
  exact hset b record

theorem Server.fields_nodup : (Server.fields.map Prod.fst).Nodup :=
  List.nodup_singleton _

theorem Server.decides_port : Decides Server.fields "port" Server.port portOf := by
  refine decides_of_mem Server.fields_nodup (List.mem_cons_self ..)
    (fun value record => ?_) ?_
  · unfold portOf
    cases wholeNumber 65536 value <;> rfl
  · simp [Server.fields]

theorem RateLimit.fields_nodup : (RateLimit.fields.map Prod.fst).Nodup := by
  simp [RateLimit.fields]

theorem RateLimit.decides_enabled :
    Decides RateLimit.fields "enabled" RateLimit.enabled truthValue := by
  refine decides_of_mem RateLimit.fields_nodup (List.mem_cons_self ..)
    (fun value record => ?_) ?_
  · cases truthValue value <;> rfl
  · simp only [RateLimit.fields, List.forall_mem_cons]
    exact ⟨fun hne => absurd rfl hne, fun _ => keeps fun _ _ => rfl,
      fun _ => keeps fun _ _ => rfl, fun _ => keeps fun _ _ => rfl, by simp⟩

theorem RateLimit.decides_rps :
    Decides RateLimit.fields "rps" RateLimit.rps realNumber := by
  refine decides_of_mem RateLimit.fields_nodup
    (List.mem_cons_of_mem _ (List.mem_cons_self ..)) (fun value record => ?_) ?_
  · cases realNumber value <;> rfl
  · simp only [RateLimit.fields, List.forall_mem_cons]
    exact ⟨fun _ => keeps fun _ _ => rfl, fun hne => absurd rfl hne,
      fun _ => keeps fun _ _ => rfl, fun _ => keeps fun _ _ => rfl, by simp⟩

theorem RateLimit.decides_burst :
    Decides RateLimit.fields "burst" RateLimit.burst burstOf := by
  refine decides_of_mem RateLimit.fields_nodup
    (List.mem_cons_of_mem _ (List.mem_cons_of_mem _ (List.mem_cons_self ..)))
    (fun value record => ?_) ?_
  · unfold burstOf
    cases wholeNumber 4294967296 value <;> rfl
  · simp only [RateLimit.fields, List.forall_mem_cons]
    exact ⟨fun _ => keeps fun _ _ => rfl, fun _ => keeps fun _ _ => rfl,
      fun hne => absurd rfl hne, fun _ => keeps fun _ _ => rfl, by simp⟩

theorem RateLimit.decides_evictionInterval :
    Decides RateLimit.fields "eviction_interval" RateLimit.evictionInterval duration := by
  refine decides_of_mem RateLimit.fields_nodup (List.mem_cons_of_mem _
    (List.mem_cons_of_mem _ (List.mem_cons_of_mem _ (List.mem_cons_self ..))))
    (fun value record => ?_) ?_
  · cases duration value <;> rfl
  · simp only [RateLimit.fields, List.forall_mem_cons]
    exact ⟨fun _ => keeps fun _ _ => rfl, fun _ => keeps fun _ _ => rfl,
      fun _ => keeps fun _ _ => rfl, fun hne => absurd rfl hne, by simp⟩

theorem CrossOrigin.fields_nodup : (CrossOrigin.fields.map Prod.fst).Nodup := by
  simp [CrossOrigin.fields]

theorem CrossOrigin.decides_allowedOrigins :
    Decides CrossOrigin.fields "allowed_origins" CrossOrigin.allowedOrigins texts := by
  refine decides_of_mem CrossOrigin.fields_nodup (List.mem_cons_self ..)
    (fun value record => ?_) ?_
  · cases texts value <;> rfl
  · simp only [CrossOrigin.fields, List.forall_mem_cons]
    exact ⟨fun hne => absurd rfl hne, fun _ => keeps fun _ _ => rfl, by simp⟩

theorem CrossOrigin.decides_maxAgeSeconds :
    Decides CrossOrigin.fields "max_age_seconds" CrossOrigin.maxAgeSeconds ageOf := by
  refine decides_of_mem CrossOrigin.fields_nodup
    (List.mem_cons_of_mem _ (List.mem_cons_self ..)) (fun value record => ?_) ?_
  · unfold ageOf
    cases wholeNumber wordBound value <;> rfl
  · simp only [CrossOrigin.fields, List.forall_mem_cons]
    exact ⟨fun _ => keeps fun _ _ => rfl, fun hne => absurd rfl hne, by simp⟩

theorem groups_nodup : (groups.map Prod.fst).Nodup := by
  simp [groups]

theorem decides_server :
    Decides groups "server" Settings.server (readGroup Server.fields .default) := by
  refine decides_of_mem groups_nodup (List.mem_cons_self ..) (fun value record => ?_) ?_
  · cases readGroup Server.fields .default value <;> rfl
  · simp only [groups, List.forall_mem_cons]
    exact ⟨fun hne => absurd rfl hne, fun _ => keeps fun _ _ => rfl,
      fun _ => keeps fun _ _ => rfl, by simp⟩

theorem decides_rateLimit :
    Decides groups "rate_limit" Settings.rateLimit
      (readGroup RateLimit.fields .default) := by
  refine decides_of_mem groups_nodup (List.mem_cons_of_mem _ (List.mem_cons_self ..))
    (fun value record => ?_) ?_
  · cases readGroup RateLimit.fields .default value <;> rfl
  · simp only [groups, List.forall_mem_cons]
    exact ⟨fun _ => keeps fun _ _ => rfl, fun hne => absurd rfl hne,
      fun _ => keeps fun _ _ => rfl, by simp⟩

theorem decides_crossOrigin :
    Decides groups "cors" Settings.crossOrigin
      (readGroup CrossOrigin.fields .default) := by
  refine decides_of_mem groups_nodup
    (List.mem_cons_of_mem _ (List.mem_cons_of_mem _ (List.mem_cons_self ..)))
    (fun value record => ?_) ?_
  · cases readGroup CrossOrigin.fields .default value <;> rfl
  · simp only [groups, List.forall_mem_cons]
    exact ⟨fun _ => keeps fun _ _ => rfl, fun _ => keeps fun _ _ => rfl,
      fun hne => absurd rfl hne, by simp⟩

-- ============================================================ a document

/-- What the entries of a document say. Every group that is there is a group,
and each field has the value that is stated, if one is, and else its default. -/
structure Says (entries : Entries) (settings : Settings) : Prop where
  groups : ∀ group ∈ groupNames, ∀ value, entries.find? group.1 = some value →
    (members group.2 value).isSome = true
  port : readOr Server.default.port portOf
    (stated? entries "server" Server.names "port") = .ok settings.server.port
  enabled : readOr RateLimit.default.enabled truthValue
    (stated? entries "rate_limit" RateLimit.names "enabled")
      = .ok settings.rateLimit.enabled
  rps : readOr RateLimit.default.rps realNumber
    (stated? entries "rate_limit" RateLimit.names "rps") = .ok settings.rateLimit.rps
  burst : readOr RateLimit.default.burst burstOf
    (stated? entries "rate_limit" RateLimit.names "burst") = .ok settings.rateLimit.burst
  evictionInterval : readOr RateLimit.default.evictionInterval duration
    (stated? entries "rate_limit" RateLimit.names "eviction_interval")
      = .ok settings.rateLimit.evictionInterval
  allowedOrigins : readOr CrossOrigin.default.allowedOrigins texts
    (stated? entries "cors" CrossOrigin.names "allowed_origins")
      = .ok settings.crossOrigin.allowedOrigins
  maxAgeSeconds : readOr CrossOrigin.default.maxAgeSeconds ageOf
    (stated? entries "cors" CrossOrigin.names "max_age_seconds")
      = .ok settings.crossOrigin.maxAgeSeconds

section

variable {entries : Entries} {settings other : Settings}

/-- A document says one thing only. -/
theorem Says.unique (hdoc : Says entries settings) (hother : Says entries other) :
    settings = other := by
  have hsame {α : Type} {x : Except Misfit α} {a b : α} (ha : x = .ok a)
      (hb : x = .ok b) : a = b := Except.ok.inj (ha.symm.trans hb)
  rcases settings with ⟨⟨port⟩, ⟨enabled, rps, burst, interval⟩, ⟨origins, age⟩⟩
  rcases other with ⟨⟨port'⟩, ⟨enabled', rps', burst', interval'⟩, ⟨origins', age'⟩⟩
  cases hsame hdoc.port hother.port
  cases hsame hdoc.enabled hother.enabled
  cases hsame hdoc.rps hother.rps
  cases hsame hdoc.burst hother.burst
  cases hsame hdoc.evictionInterval hother.evictionInterval
  cases hsame hdoc.allowedOrigins hother.allowedOrigins
  cases hsame hdoc.maxAgeSeconds hother.maxAgeSeconds
  rfl

theorem says_of_readEntries (htidy : entries.Tidy)
    (hread : readEntries groups entries default = .ok settings) : Says entries settings := by
  have hserver := decides_server.readEntries htidy.distinct hread
  have hlimit := decides_rateLimit.readEntries htidy.distinct hread
  have hcross := decides_crossOrigin.readEntries htidy.distinct hread
  exact {
    groups := by
      intro group hgroup value hfind
      simp only [groupNames, List.mem_cons, List.not_mem_nil, or_false] at hgroup
      rcases hgroup with rfl | rfl | rfl
      · exact isSome_members_of_readGroup Server.fields_nodup hserver hfind
      · exact isSome_members_of_readGroup RateLimit.fields_nodup hlimit hfind
      · exact isSome_members_of_readGroup CrossOrigin.fields_nodup hcross hfind
    port := Server.decides_port.readGroup Server.fields_nodup htidy hserver
    enabled := RateLimit.decides_enabled.readGroup RateLimit.fields_nodup htidy hlimit
    rps := RateLimit.decides_rps.readGroup RateLimit.fields_nodup htidy hlimit
    burst := RateLimit.decides_burst.readGroup RateLimit.fields_nodup htidy hlimit
    evictionInterval :=
      RateLimit.decides_evictionInterval.readGroup RateLimit.fields_nodup htidy hlimit
    allowedOrigins :=
      CrossOrigin.decides_allowedOrigins.readGroup CrossOrigin.fields_nodup htidy hcross
    maxAgeSeconds :=
      CrossOrigin.decides_maxAgeSeconds.readGroup CrossOrigin.fields_nodup htidy hcross }

/-- A group that was read is put into any record. -/
theorem Decides.takesGroup {σ : Type} {group : String} {get : Settings → σ}
    {fields : List (Field σ)} {before : σ}
    (hgroup : Decides Settings.groups group get (Settings.readGroup fields before))
    {value : Value} (hread : ∃ changed, Settings.readGroup fields before value = .ok changed)
    (record : Settings) :
    ∃ changed, readEntry Settings.groups (group, value) record = .ok changed := by
  obtain ⟨changed, hchanged⟩ := hread
  have hfind : Entries.find? group [(group, value)] = some value := by
    rw [Entries.find?_cons, if_pos rfl]
  have hsaid : readOr before (Settings.readGroup fields before)
      (Entries.find? group [(group, value)]) = .ok changed := by
    rw [hfind]
    exact hchanged
  exact hgroup.takes hsaid hfind record

theorem readEntries_eq_ok (htidy : entries.Tidy) (hdoc : Says entries settings) :
    readEntries groups entries default = .ok settings := by
  suffices hread : ∃ changed, readEntries groups entries default = .ok changed by
    obtain ⟨changed, hchanged⟩ := hread
    rw [hchanged, (says_of_readEntries htidy hchanged).unique hdoc]
  refine readEntries_ok htidy.distinct (fun group hgroup value hfind => ?_) default
  have hmembers := fun names (hnames : (group, names) ∈ groupNames) =>
    hdoc.groups (group, names) hnames value hfind
  simp only [groups, List.map_cons, List.map_nil, List.mem_cons, List.not_mem_nil,
    or_false] at hgroup
  rcases hgroup with rfl | rfl | rfl
  · refine decides_server.takesGroup (readGroup_ok Server.fields_nodup htidy hfind
      (hmembers Server.names (by simp [groupNames])) (fun inner hinner name hname => ?_) _)
    have hsaid := hdoc.port
    unfold stated? at hsaid
    rw [show Server.names = Server.fields.map Prod.fst from rfl, hinner] at hsaid
    rw [List.mem_singleton.mp hname]
    exact fun value hfind => Server.decides_port.takes hsaid hfind
  · refine decides_rateLimit.takesGroup (readGroup_ok RateLimit.fields_nodup htidy hfind
      (hmembers RateLimit.names (by simp [groupNames])) (fun inner hinner name hname => ?_) _)
    have henabled := hdoc.enabled
    have hrps := hdoc.rps
    have hburst := hdoc.burst
    have hinterval := hdoc.evictionInterval
    unfold stated? at henabled hrps hburst hinterval
    rw [show RateLimit.names = RateLimit.fields.map Prod.fst from rfl, hinner]
      at henabled hrps hburst hinterval
    simp only [RateLimit.fields, List.map_cons, List.map_nil, List.mem_cons,
      List.not_mem_nil, or_false] at hname
    rcases hname with rfl | rfl | rfl | rfl
    · exact fun value hfind => RateLimit.decides_enabled.takes henabled hfind
    · exact fun value hfind => RateLimit.decides_rps.takes hrps hfind
    · exact fun value hfind => RateLimit.decides_burst.takes hburst hfind
    · exact fun value hfind => RateLimit.decides_evictionInterval.takes hinterval hfind
  · refine decides_crossOrigin.takesGroup (readGroup_ok CrossOrigin.fields_nodup htidy hfind
      (hmembers CrossOrigin.names (by simp [groupNames]))
      (fun inner hinner name hname => ?_) _)
    have horigins := hdoc.allowedOrigins
    have hage := hdoc.maxAgeSeconds
    unfold stated? at horigins hage
    rw [show CrossOrigin.names = CrossOrigin.fields.map Prod.fst from rfl, hinner]
      at horigins hage
    simp only [CrossOrigin.fields, List.map_cons, List.map_nil, List.mem_cons,
      List.not_mem_nil, or_false] at hname
    rcases hname with rfl | rfl
    · exact fun value hfind => CrossOrigin.decides_allowedOrigins.takes horigins hfind
    · exact fun value hfind => CrossOrigin.decides_maxAgeSeconds.takes hage hfind

/-- A text gives settings exactly if it is a document that says them. -/
theorem ofDocument_eq_ok_iff {text : String} :
    ofDocument text = .ok settings
      ↔ ∃ entries, Toml.parse? text = some entries ∧ Says entries settings := by
  unfold ofDocument
  cases hparse : Toml.parse? text with
  | none => simp
  | some entries =>
      have htidy := Toml.parse?_tidy hparse
      simp only [Option.some.injEq, exists_eq_left']
      exact ⟨says_of_readEntries htidy, readEntries_eq_ok htidy⟩

end

end Turnstile.Settings
