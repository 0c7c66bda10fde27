/-
What a table says of a key.

A table is told by what `find?` says of each key, as long as its keys are
distinct. An update asks its change with what is there and puts the answer in
its place (`update_eq`), so of all that changes a table only `put` has to be
looked at: it changes what is said of its own key (`find?_put`) and adds a key
only if it is missing (`keys_put`).

Chain (toml): below Tidy.lean and Steps.lean.
-/
import Mathlib
import Turnstile.Toml.Table

namespace Turnstile.Toml

namespace Entries

variable {entries changed filled : Entries} {key name : String} {value : Value}
  {change : Option Value → Option Value} {path : List String}
  {act : String → Entries → Option Entries}
  {pairs : List (List String × Value)}

-- ======================================================== single entries

/-- The keys of a table, in order. -/
def keys (entries : Entries) : List String :=
  entries.map Prod.fst

/-- No key stands twice. -/
def Distinct (entries : Entries) : Prop :=
  entries.keys.Nodup

/-- The table with a value for a key, in the place of the one that is there, or
at the end. -/
def put (key : String) (value : Value) : Entries → Entries
  | [] => [(key, value)]
  | entry :: rest =>
      if entry.1 = key then (key, value) :: rest else entry :: put key value rest

theorem find?_cons (name : String) (entry : String × Value) (rest : Entries) :
    find? name (entry :: rest)
      = if name = entry.1 then some entry.2 else find? name rest := by
  unfold find?
  rw [List.lookup_cons]
  by_cases hown : name = entry.1
  · rw [if_pos hown, beq_iff_eq.mpr hown]
  · rw [if_neg hown, beq_eq_false_iff_ne.mpr hown]

theorem find?_eq_none_iff : entries.find? name = none ↔ name ∉ entries.keys := by
  unfold find? keys
  rw [List.lookup_eq_none_iff, List.mem_map]
  constructor
  · rintro hall ⟨entry, hmem, rfl⟩
    simpa using hall entry hmem
  · intro hnot entry hmem
    refine bne_iff_ne.mpr fun hsame => hnot ⟨entry, hmem, hsame.symm⟩

theorem mem_of_find? (hfind : entries.find? name = some value) :
    (name, value) ∈ entries := by
  obtain ⟨front, back, hsplit, -⟩ := List.lookup_eq_some_iff.mp hfind
  rw [hsplit]
  exact List.mem_append_right _ (List.mem_cons_self ..)

theorem find?_of_mem (hdistinct : entries.Distinct) (hmem : (name, value) ∈ entries) :
    entries.find? name = some value := by
  induction entries with
  | nil => cases hmem
  | cons entry rest ih =>
      obtain ⟨hfresh, hrest⟩ := List.nodup_cons.mp hdistinct
      rw [find?_cons]
      rcases List.mem_cons.mp hmem with rfl | hmem
      · rw [if_pos rfl]
      · have hother : name ≠ entry.1 := by
          rintro rfl
          exact hfresh (List.mem_map.mpr ⟨_, hmem, rfl⟩)
        rw [if_neg hother, ih hrest hmem]

theorem find?_put (key name : String) (value : Value) (entries : Entries) :
    (entries.put key value).find? name
      = if name = key then some value else entries.find? name := by
  induction entries with
  | nil => exact find?_cons ..
  | cons entry rest ih =>
      rw [put]
      by_cases hown : entry.1 = key
      · rw [if_pos hown, find?_cons, find?_cons, hown]
        split <;> rfl
      · rw [if_neg hown, find?_cons, find?_cons, ih]
        by_cases hname : name = entry.1
        · rw [if_pos hname, if_pos hname, if_neg (hname ▸ hown)]
        · rw [if_neg hname, if_neg hname]

theorem keys_put (key : String) (value : Value) (entries : Entries) :
    (entries.put key value).keys
      = if key ∈ entries.keys then entries.keys else entries.keys ++ [key] := by
  induction entries with
  | nil => rfl
  | cons entry rest ih =>
      rw [put]
      by_cases hown : entry.1 = key
      · rw [if_pos hown, if_pos (by simp [keys, hown])]
        simp [keys, hown]
      · have hcons (rest : Entries) : keys (entry :: rest) = entry.1 :: keys rest := rfl
        rw [if_neg hown, hcons, hcons, ih]
        by_cases hlater : key ∈ keys rest
        · rw [if_pos hlater, if_pos (List.mem_cons_of_mem _ hlater)]
        · have hfresh : key ∉ entry.1 :: keys rest := by
            simp [Ne.symm hown, hlater]
          rw [if_neg hlater, if_neg hfresh, List.cons_append]

theorem mem_put {entry : String × Value} (hmem : entry ∈ entries.put key value) :
    entry = (key, value) ∨ entry ∈ entries := by
  induction entries with
  | nil => exact Or.inl (List.mem_singleton.mp hmem)
  | cons first rest ih =>
      rw [put] at hmem
      split at hmem
      · rcases List.mem_cons.mp hmem with hmem | hmem
        · exact Or.inl hmem
        · exact Or.inr (List.mem_cons_of_mem _ hmem)
      · rcases List.mem_cons.mp hmem with rfl | hmem
        · exact Or.inr (List.mem_cons_self ..)
        · exact (ih hmem).imp_right (List.mem_cons_of_mem _)

theorem distinct_nil : Distinct [] :=
  List.nodup_nil

theorem Distinct.put (hdistinct : entries.Distinct) (key : String) (value : Value) :
    (entries.put key value).Distinct := by
  unfold Distinct
  rw [keys_put]
  split
  case isTrue => exact hdistinct
  case isFalse hfresh =>
    refine List.nodup_append.mpr ⟨hdistinct, List.nodup_singleton _, ?_⟩
    intro name hname other hother hsame
    rw [List.mem_singleton.mp hother] at hsame
    exact hfresh (hsame ▸ hname)

/-- An update is asked with what is there, and puts what it answers. -/
theorem update_eq (key : String) (change : Option Value → Option Value)
    (entries : Entries) :
    entries.update key change = (change (entries.find? key)).map (put key · entries) := by
  induction entries with
  | nil => rfl
  | cons entry rest ih =>
      rw [update, find?_cons]
      by_cases hown : entry.1 = key
      · rw [if_pos hown, if_pos hown.symm]
        simp [Entries.put, hown]
      · rw [if_neg hown, if_neg (Ne.symm hown), ih, Option.map_map]
        congr 1
        funext value
        simp [Entries.put, hown]

theorem update_eq_some (hupdate : entries.update key change = some changed) :
    ∃ value, change (entries.find? key) = some value ∧ changed = entries.put key value := by
  rw [update_eq, Option.map_eq_some_iff] at hupdate
  obtain ⟨value, hchange, rfl⟩ := hupdate
  exact ⟨value, hchange, rfl⟩

theorem Distinct.update (hdistinct : entries.Distinct)
    (hupdate : entries.update key change = some changed) : changed.Distinct := by
  obtain ⟨value, -, rfl⟩ := update_eq_some hupdate
  exact hdistinct.put key value

end Entries

end Turnstile.Toml
