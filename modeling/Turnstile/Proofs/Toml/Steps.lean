/-
What lines in any order come to.

A line of a document changes what is said of one key of the top table, the
first part of its own key, and how it does so depends only on what was said of
that key (`Step`). So the lines that concern a key come to what they come to
without all the others, and it does not matter where the others stand
(`run_of_told`): told key by key, a document is the list of its lines that begin
with that key.

Lines whose keys begin with one name build under it the table that they would
build alone without the name (`told_under`, `told_under_new`); dotted keys and the
headers of tables below are such lines.

Chain (toml): Toml/Entries.lean and Toml/Tidy.lean below; Settings/Lines.lean
above.
-/
import Mathlib
import Turnstile.Proofs.Toml.Tidy

namespace Turnstile.Toml

-- ============================================================= one step

/-- A change of a table that asks for the value of one key, and changes no
other. -/
structure Step where
  key : String
  change : Option Value → Option Value
  act : Entries → Option Entries
  fails : ∀ entries, change (entries.find? key) = none → act entries = none
  acts : ∀ entries value, change (entries.find? key) = some value →
    ∃ changed, act entries = some changed ∧ ∀ name,
      changed.find? name = if name = key then some value else entries.find? name

namespace Step

/-- An update of a key. -/
def update (key : String) (change : Option Value → Option Value) : Step where
  key := key
  change := change
  act := Entries.update key change
  fails entries hnone := by rw [Entries.update_eq, hnone]; rfl
  acts entries value hvalue := by
    refine ⟨entries.put key value, ?_, fun name => Entries.find?_put key name value entries⟩
    rw [Entries.update_eq, hvalue]
    rfl

/-- Steps one after the other. -/
def run (steps : List Step) (entries : Entries) : Option Entries :=
  steps.foldlM (fun entries (step : Step) => step.act entries) entries

/-- What the steps say of one key, if what was said before is known. -/
def told (name : String) : List Step → Option Value → Option (Option Value)
  | [], value? => some value?
  | step :: steps, value? =>
      if step.key = name then (step.change value?).bind fun value => told name steps value
      else told name steps value?

variable {steps more : List Step} {step : Step} {name : String} {value? : Option Value}
  {entries final : Entries}

theorem run_cons (step : Step) (steps : List Step) (entries : Entries) :
    run (step :: steps) entries = (step.act entries).bind (run steps) := by
  unfold run
  rw [List.foldlM_cons]
  rfl

theorem run_append (steps more : List Step) (entries : Entries) :
    run (steps ++ more) entries = (run steps entries).bind (run more) := by
  unfold run
  rw [List.foldlM_append]
  rfl

theorem told_cons_own (hkey : step.key = name) :
    told name (step :: steps) value?
      = (step.change value?).bind fun value => told name steps value := by
  rw [told, if_pos hkey]

theorem told_cons_other (hkey : step.key ≠ name) :
    told name (step :: steps) value? = told name steps value? := by
  rw [told, if_neg hkey]

theorem told_of_none (hnone : ∀ step ∈ steps, step.key ≠ name) :
    told name steps value? = some value? := by
  induction steps with
  | nil => rfl
  | cons step steps ih =>
      rw [told_cons_other (hnone step (List.mem_cons_self ..))]
      exact ih fun other hother => hnone other (List.mem_cons_of_mem _ hother)

theorem told_append (name : String) (steps more : List Step) (value? : Option Value) :
    told name (steps ++ more) value? = (told name steps value?).bind (told name more) := by
  induction steps generalizing value? with
  | nil => rfl
  | cons step steps ih =>
      rw [List.cons_append]
      by_cases hkey : step.key = name
      · rw [told_cons_own hkey, told_cons_own hkey, Option.bind_assoc]
        exact congrArg _ (funext fun value => ih value)
      · rw [told_cons_other hkey, told_cons_other hkey, ih]

/-- What does not concern the key can be left out, and the rest be put in other
words. -/
theorem told_filterMap {α β : Type} {xs : List α} {toStep : α → Step}
    (select : α → Option β) (own : β → Step)
    (hselected : ∀ x ∈ xs, ∀ y, select x = some y → toStep x = own y)
    (hleft : ∀ x ∈ xs, select x = none → (toStep x).key ≠ name) (value? : Option Value) :
    told name (xs.map toStep) value? = told name ((xs.filterMap select).map own) value? := by
  induction xs generalizing value? with
  | nil => rfl
  | cons x xs ih =>
      obtain ⟨hfirst, hrest⟩ := List.forall_mem_cons.mp hselected
      obtain ⟨hother, hothers⟩ := List.forall_mem_cons.mp hleft
      have hmore := ih hrest hothers
      rw [List.map_cons]
      cases hselect : select x with
      | none => rw [List.filterMap_cons_none hselect, told_cons_other (hother hselect), hmore]
      | some y =>
          rw [List.filterMap_cons_some hselect, List.map_cons, hfirst y hselect]
          by_cases hkey : (own y).key = name
          · rw [told_cons_own hkey, told_cons_own hkey]
            exact congrArg _ (funext fun value => hmore (some value))
          · rw [told_cons_other hkey, told_cons_other hkey, hmore]

theorem told_filter {α : Type} {xs : List α} {toStep : α → Step} (kind : α → Bool)
    (hleft : ∀ x ∈ xs, kind x = false → (toStep x).key ≠ name) (value? : Option Value) :
    told name (xs.map toStep) value? = told name ((xs.filter kind).map toStep) value? := by
  rw [← List.filterMap_eq_filter]
  refine told_filterMap _ _ (fun x _ y hselect => ?_) (fun x hmem hselect => ?_) value?
  · rw [(Option.guard_eq_some_iff.mp hselect).1]
  · exact hleft x hmem (Option.guard_eq_none_iff.mp hselect)

/-- If the steps of each key can be taken then all can, and what is said of a key
is what its own steps say. -/
theorem run_of_told
    (htold : ∀ name, ∃ last?, told name steps (entries.find? name) = some last?) :
    ∃ final, run steps entries = some final
      ∧ ∀ name, told name steps (entries.find? name) = some (final.find? name) := by
  induction steps generalizing entries with
  | nil => exact ⟨entries, rfl, fun name => rfl⟩
  | cons step steps ih =>
      obtain ⟨value, hvalue⟩ : ∃ value, step.change (entries.find? step.key) = some value := by
        obtain ⟨last?, hlast⟩ := htold step.key
        rw [told_cons_own rfl] at hlast
        obtain ⟨value, hvalue, -⟩ := Option.bind_eq_some_iff.mp hlast
        exact ⟨value, hvalue⟩
      obtain ⟨changed, hact, hfind⟩ := step.acts entries value hvalue
      have hsame (name : String) : told name (step :: steps) (entries.find? name)
          = told name steps (changed.find? name) := by
        rw [hfind]
        by_cases hkey : name = step.key
        · rw [if_pos hkey, told_cons_own hkey.symm, hkey, hvalue, Option.bind_some]
        · rw [if_neg hkey, told_cons_other (Ne.symm hkey)]
      have hlater : ∀ name, ∃ last?, told name steps (changed.find? name) = some last? :=
        fun name => hsame name ▸ htold name
      obtain ⟨final, hrun, hfinal⟩ := ih hlater
      refine ⟨final, ?_, fun name => (hsame name).trans (hfinal name)⟩
      rw [run_cons, hact]
      exact hrun

/-- The steps of each key can be taken if all can. -/
theorem told_of_run (hrun : run steps entries = some final) (name : String) :
    told name steps (entries.find? name) = some (final.find? name) := by
  induction steps generalizing entries with
  | nil => rw [← Option.some.inj hrun]; rfl
  | cons step steps ih =>
      rw [run_cons] at hrun
      obtain ⟨changed, hact, hrest⟩ := Option.bind_eq_some_iff.mp hrun
      cases hvalue : step.change (entries.find? step.key) with
      | none => rw [step.fails entries hvalue] at hact; cases hact
      | some value =>
          obtain ⟨changed', hact', hfind⟩ := step.acts entries value hvalue
          cases hact.symm.trans hact'
          rw [← ih hrest, hfind]
          by_cases hkey : name = step.key
          · rw [if_pos hkey, told_cons_own hkey.symm, hkey, hvalue, Option.bind_some]
          · rw [if_neg hkey, told_cons_other (Ne.symm hkey)]

end Step

-- ======================================================= pairs as steps

namespace Entries

/-- How a pair changes what is said of the first part of its key. -/
def changeOf (value : Value) (rest : List String) : Option Value → Option Value
  | none => if rest = [] then some value else (define value rest []).map (.table .dotted)
  | some (.table origin inner) =>
      if rest ≠ [] ∧ admitsDotted (rest.length == 1) origin = true then
        (define value rest inner).map (.table origin)
      else none
  | some (.tables elements) =>
      if rest.length ≤ 1 then none
      else (updateLast (define value rest) elements).map .tables
  | some _ => none

theorem define_cons (value : Value) (name : String) (rest : List String)
    (entries : Entries) :
    define value (name :: rest) entries = entries.update name (changeOf value rest) := by
  cases rest with
  | nil =>
      show entries.update name _ = _
      congr 1
      funext value?
      rcases value? with _ | old
      · rfl
      · cases old <;> rfl
  | cons next rest =>
      show entries.update name _ = _
      congr 1
      funext value?
      rcases value? with _ | old
      · rfl
      · cases old with
        | table origin inner => simp [changeOf]
        | tables elements => simp [changeOf]
        | _ => rfl

/-- How a header changes what is said of the first part of its key, if there is
a second. -/
def changeBelow (act : String → Entries → Option Entries) (key : List String) :
    Option Value → Option Value
  | none => (atHeader act key []).map (.table .implied)
  | some (.table origin inner) =>
      if origin = .braces then none else (atHeader act key inner).map (.table origin)
  | some (.tables elements) => (updateLast (atHeader act key) elements).map .tables
  | some _ => none

/-- How a header opens a table. -/
def openedBy (pairs : List (List String × Value)) : Option Value → Option Value
  | none => (defineAll pairs []).map (.table .header)
  | some (.table .implied inner) => (defineAll pairs inner).map (.table .header)
  | some _ => none

/-- How a header adds an element. -/
def lengthenedBy (pairs : List (List String × Value)) : Option Value → Option Value
  | none => (defineAll pairs []).map fun filled => .tables [filled]
  | some (.tables elements) =>
      (defineAll pairs []).map fun filled => .tables (elements ++ [filled])
  | some _ => none

theorem openTable_eq (pairs : List (List String × Value)) (name : String)
    (entries : Entries) :
    openTable pairs name entries = (openedBy pairs (entries.find? name)).map
      fun value => entries.erase name ++ [(name, value)] := by
  have hplaced (inner : Entries) :
      (defineAll pairs inner).map (fun filled =>
          entries.erase name ++ [(name, .table .header filled)])
        = ((defineAll pairs inner).map (Value.table .header)).map
          fun value => entries.erase name ++ [(name, value)] := by
    rw [Option.map_map]
    rfl
  unfold openTable
  rcases entries.find? name with _ | old
  · exact hplaced []
  · cases old with
    | table origin inner =>
        cases origin with
        | implied => exact hplaced inner
        | braces | header | dotted => rfl
    | _ => rfl

theorem openElement_eq (pairs : List (List String × Value)) (name : String)
    (entries : Entries) :
    openElement pairs name entries = entries.update name (lengthenedBy pairs) := by
  unfold openElement
  cases hfilled : defineAll pairs [] with
  | none =>
      rw [update_eq]
      rcases entries.find? name with _ | old
      · simp [lengthenedBy, hfilled]
      · cases old <;> simp [lengthenedBy, hfilled]
  | some filled =>
      show entries.update name _ = _
      congr 1
      funext value?
      rcases value? with _ | old
      · simp [lengthenedBy, hfilled]
      · cases old <;> simp [lengthenedBy, hfilled]

theorem find?_append_of_not_mem {front back : Entries} {name : String}
    (hnot : name ∉ front.keys) : find? name (front ++ back) = find? name back := by
  unfold find?
  rw [List.lookup_append, show front.lookup name = none from find?_eq_none_iff.mpr hnot]
  rfl

/-- A table moved to the end is the only one that changes. -/
theorem find?_snoc_erase (key name : String) (value : Value) (entries : Entries) :
    find? name (entries.erase key ++ [(key, value)])
      = if name = key then some value else entries.find? name := by
  by_cases hkey : name = key
  · subst hkey
    have hgone : name ∉ (entries.erase name).keys := by
      rw [keys_erase, List.mem_filter]
      simp
    rw [find?_append_of_not_mem hgone, if_pos rfl, find?_cons, if_pos rfl]
  · rw [if_neg hkey]
    induction entries with
    | nil => exact (find?_cons ..).trans (if_neg hkey)
    | cons entry rest ih =>
        rw [find?_cons]
        by_cases hown : entry.1 = key
        · have herased : erase key (entry :: rest) = erase key rest := by
            simp [erase, hown]
          rw [herased, ih, if_neg (hown ▸ hkey)]
        · have hkept : erase key (entry :: rest) = entry :: erase key rest := by
            simp [erase, hown]
          rw [hkept, List.cons_append, find?_cons, ih]

end Entries

namespace Step

/-- A line without a key, which no reader gives. -/
def nowhere : Step where
  key := ""
  change := fun _ => none
  act := fun _ => none
  fails _ _ := rfl
  acts _ _ hvalue := nomatch hvalue

/-- The step of a pair. -/
def ofPair (pair : List String × Value) : Step :=
  match pair.1 with
  | [] => nowhere
  | name :: rest => .update name (Entries.changeOf pair.2 rest)

/-- The step of a header that opens a table, with the pairs under it. -/
def opening (pairs : List (List String × Value)) (name : String) : Step where
  key := name
  change := Entries.openedBy pairs
  act := Entries.openTable pairs name
  fails entries hnone := by rw [Entries.openTable_eq, hnone]; rfl
  acts entries value hvalue := by
    refine ⟨_, ?_, fun other => Entries.find?_snoc_erase name other value entries⟩
    rw [Entries.openTable_eq, hvalue]
    rfl

/-- What a header does at the end of its key. -/
def headerAct (part : Section) : String → Entries → Option Entries :=
  if part.isElement then Entries.openElement part.pairs else Entries.openTable part.pairs

/-- The step of a header with the pairs under it. -/
def ofSection (part : Section) : Step :=
  match part.key with
  | [] => nowhere
  | [name] =>
      if part.isElement then .update name (Entries.lengthenedBy part.pairs)
      else .opening part.pairs name
  | name :: next :: rest => .update name (Entries.changeBelow (headerAct part) (next :: rest))

variable {name : String} {pairs : List (List String × Value)} {value : Value}
  {path : List String} {part : Section} {inner : Entries}

theorem ofPair_act (pair : List String × Value) (entries : Entries) :
    (ofPair pair).act entries = entries.define pair.2 pair.1 := by
  obtain ⟨key, value⟩ := pair
  cases key with
  | nil => rfl
  | cons name rest => exact (Entries.define_cons value name rest entries).symm

theorem ofSection_act (part : Section) (entries : Entries) :
    (ofSection part).act entries = part.addTo? entries := by
  obtain ⟨isElement, key, pairs⟩ := part
  match key with
  | [] => rfl
  | [name] =>
      cases isElement with
      | true => exact (Entries.openElement_eq pairs name entries).symm
      | false => rfl
  | name :: next :: rest =>
      show entries.update name _ = entries.update name _
      congr 1

/-- Giving keys their values is a run of steps. -/
theorem defineAll_eq_run (pairs : List (List String × Value)) (entries : Entries) :
    Entries.defineAll pairs entries = run (pairs.map ofPair) entries := by
  induction pairs generalizing entries with
  | nil => rfl
  | cons pair pairs ih =>
      rw [List.map_cons, run_cons, ofPair_act]
      exact congrArg _ (funext fun changed => ih changed)

/-- Building a document is a run of steps. -/
theorem tableOf?_eq_run (statements : List Statement) :
    tableOf? statements
      = run ((sections statements).1.map ofPair ++ (sections statements).2.map ofSection)
        [] := by
  have hparts (parts : List Section) (entries : Entries) :
      parts.foldlM (fun entries part => part.addTo? entries) entries
        = run (parts.map ofSection) entries := by
    induction parts generalizing entries with
    | nil => rfl
    | cons part parts ih =>
        rw [List.map_cons, run_cons, ofSection_act, List.foldlM_cons]
        exact congrArg _ (funext fun changed => ih changed)
  rw [run_append, ← defineAll_eq_run]
  unfold tableOf?
  cases sections statements with
  | mk pairs parts =>
      exact congrArg (Option.bind _) (funext fun top => hparts parts top)

-- ============================================================ one name

theorem key_ofPair (name : String) (rest : List String) (value : Value) :
    (ofPair (name :: rest, value)).key = name :=
  rfl

theorem key_ofSection (isElement : Bool) (name : String) (rest : List String)
    (pairs : List (List String × Value)) :
    (ofSection ⟨isElement, name :: rest, pairs⟩).key = name := by
  cases rest with
  | nil => cases isElement <;> rfl
  | cons next rest => rfl

/-- A key with a value of its own. -/
theorem told_value (name : String) (value : Value) :
    told name [ofPair ([name], value)] none = some (some value) :=
  told_cons_own rfl

/-- Of keys that stand once, each has its value. -/
theorem told_values {α : Type} [DecidableEq α] {key : α → String} {value : α → Value}
    (hinj : Function.Injective key) {xs : List α} (hnodup : xs.Nodup) (x : α) :
    told (key x) (xs.map fun y => ofPair ([key y], value y)) none
      = some (if x ∈ xs then some (value x) else none) := by
  induction xs with
  | nil => rfl
  | cons y ys ih =>
      obtain ⟨hfresh, hrest⟩ := List.nodup_cons.mp hnodup
      have hother {y : α} (hne : y ≠ x) : (ofPair ([key y], value y)).key ≠ key x :=
        fun hkey => hne (hinj hkey)
      rw [List.map_cons]
      by_cases hown : y = x
      · subst hown
        have hlater : ∀ step ∈ ys.map (fun y => ofPair ([key y], value y)),
            step.key ≠ key y := by
          intro step hmem
          obtain ⟨z, hz, rfl⟩ := List.mem_map.mp hmem
          exact hother fun hsame => hfresh (hsame ▸ hz)
        rw [if_pos (List.mem_cons_self ..), told_cons_own (key_ofPair ..)]
        exact told_of_none hlater
      · rw [told_cons_other (hother hown), ih hrest]
        simp [Ne.symm hown]

-- ============================================================ under a name

/-- The outer step does to the table under a name what the inner one does to a
table of its own. -/
structure Under (name : String) (origin : Origin) (outer inner : Step) : Prop where
  key : outer.key = name
  change : ∀ entries, outer.change (some (.table origin entries))
    = (inner.act entries).map (.table origin)

section

variable {α : Type} {xs : List α} {outer inner : α → Step} {origin : Origin}

theorem told_under (hunder : ∀ x ∈ xs, Under name origin (outer x) (inner x))
    (entries : Entries) :
    told name (xs.map outer) (some (.table origin entries))
      = (run (xs.map inner) entries).map fun final => some (.table origin final) := by
  induction xs generalizing entries with
  | nil => rfl
  | cons x xs ih =>
      obtain ⟨hfirst, hrest⟩ := List.forall_mem_cons.mp hunder
      rw [List.map_cons, List.map_cons, told_cons_own hfirst.key, hfirst.change, run_cons]
      cases (inner x).act entries with
      | none => rfl
      | some changed => exact ih hrest changed

/-- The first of the steps makes the table. -/
theorem told_under_new (hunder : ∀ x ∈ xs, Under name origin (outer x) (inner x))
    (hnew : ∀ x ∈ xs, (outer x).change none = ((inner x).act []).map (.table origin))
    (nonempty : xs ≠ []) :
    told name (xs.map outer) none
      = (run (xs.map inner) []).map fun final => some (.table origin final) := by
  cases xs with
  | nil => exact absurd rfl nonempty
  | cons x xs =>
      obtain ⟨hfirst, hrest⟩ := List.forall_mem_cons.mp hunder
      rw [List.map_cons, List.map_cons, told_cons_own hfirst.key,
        hnew x (List.mem_cons_self ..), run_cons]
      cases (inner x).act [] with
      | none => rfl
      | some changed => exact told_under hrest changed

end

/-- A dotted key makes a table under its first part, or goes on with one. -/
theorem under_ofPair (name : String) (pair : List String × Value) (hpath : pair.1 ≠ []) :
    Under name .dotted (ofPair (name :: pair.1, pair.2)) (ofPair pair)
      ∧ (ofPair (name :: pair.1, pair.2)).change none
        = ((ofPair pair).act []).map (.table .dotted) := by
  refine ⟨⟨rfl, fun entries => ?_⟩, ?_⟩
  · rw [ofPair_act]
    show Entries.changeOf pair.2 pair.1 (some (.table .dotted entries)) = _
    rw [Entries.changeOf, if_pos ⟨hpath, rfl⟩]
  · rw [ofPair_act]
    show Entries.changeOf pair.2 pair.1 none = _
    rw [Entries.changeOf, if_neg hpath]

/-- A header below a name finds a table there that is not in braces, or makes one. -/
theorem under_ofSection (name : String) {part : Section} (hkey : part.key ≠ [])
    {origin : Origin} (hopen : origin ≠ .braces) :
    Under name origin (ofSection { part with key := name :: part.key }) (ofSection part)
      ∧ (ofSection { part with key := name :: part.key }).change none
        = ((ofSection part).act []).map (.table .implied) := by
  obtain ⟨isElement, key, pairs⟩ := part
  obtain ⟨next, rest, rfl⟩ := List.exists_cons_of_ne_nil hkey
  refine ⟨⟨rfl, fun entries => ?_⟩, ?_⟩
  · rw [ofSection_act]
    exact if_neg hopen
  · rw [ofSection_act]
    rfl

end Step

end Turnstile.Toml
