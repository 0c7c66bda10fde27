/-
Keys and headers that begin differently.

What a document may hold besides the settings is known only to the reader
(`Layout.Writes.together`). But if no two of the keys and headers that mean nothing
begin alike where they stand then they disturb neither each other nor the settings,
and the layout writes the settings (`Spelled.writes`). With the grammar of values
(Toml/Grammar.lean) a layout is then seen to write its settings without the reader.

Chain (settings): Bare.lean and Toml/Grammar.lean below; RoundTrip.lean above.
-/
import Mathlib
import Turnstile.Proofs.Settings.Bare
import Turnstile.Proofs.Toml.Grammar

namespace Turnstile.Settings

open Toml (Value Entries Pair Step firstPart)

variable {settings : Settings} {group : Group} {item : Item} {items : List Item}
  {layout : Layout}

/-- The first part of the key of an item. -/
def Item.first : Item → String
  | setting which _ => which.name
  | other pair => firstPart pair.path

/-- The first part of the key of what is said of a group. -/
def Member.first : Member → String
  | direct item => item.first
  | below part => firstPart part.key

/-- The pairs under a header that are no settings. -/
def Block.others : Block → List Pair
  | headed _ items => items.filterMap Item.other?
  | below _ _ _ _ pairs => pairs
  | other _ _ _ pairs => pairs

/-- No two keys or headers that mean nothing begin alike where they stand: outside of
all groups, in one group, or under one header. -/
structure Layout.Distinct (layout : Layout) : Prop where
  outside : ((layout.root.filterMap RootLine.other?).map (fun pair => firstPart pair.path)
    ++ (layout.blocks.filterMap Block.other?).map fun part => firstPart part.key).Nodup
  inside : ∀ group, (((layout.membersOf group).filter Member.isOther).map Member.first).Nodup
  under : ∀ block ∈ layout.blocks, (block.others.map fun pair => firstPart pair.path).Nodup

/-- Items can stand together in braces if the keys that mean nothing begin
differently. -/
theorem together_of_distinct (hpaths : ∀ pair ∈ items.filterMap Item.other?, pair.path ≠ [])
    (hdistinct : ((items.filterMap Item.other?).map fun pair => firstPart pair.path).Nodup) :
    Together items :=
  ⟨_, Entries.defineAll_distinct hpaths hdistinct fun _ _ => List.not_mem_nil⟩

theorem key_ofPair_eq (pair : Pair) : (Step.ofPair pair.content).key = firstPart pair.path := by
  obtain ⟨key, path, text, value⟩ := pair
  cases path <;> rfl

theorem key_ofSection_eq (part : Toml.Section) :
    (Step.ofSection part).key = firstPart part.key := by
  obtain ⟨isElement, key, pairs⟩ := part
  cases key with
  | nil => rfl
  | cons name key => exact Step.key_ofSection ..

theorem Member.key_step (settings : Settings) (member : Member) :
    (member.step settings).key = member.first := by
  cases member with
  | direct item =>
      cases item with
      | setting which text => rfl
      | other pair => exact key_ofPair_eq pair
  | below part => exact key_ofSection_eq part

/-- A header that is not that of a group can be taken alone. -/
theorem Block.Spelled.exists_change {block : Block} {part : Toml.Section}
    (hspelled : block.Spelled settings)
    (hdistinct : (block.others.map fun pair => firstPart pair.path).Nodup)
    (hpart : block.other? = some part ∨ ∃ group, block.belowIn? group = some part) :
    ∃ value, (Step.ofSection part).change none = some value := by
  have hfilled {pairs : List Pair} (hpairs : ∀ pair ∈ pairs, pair.Spelled Toml.deepestNesting)
      (hdistinct : (pairs.map fun pair => firstPart pair.path).Nodup) :
      Entries.defineAll (pairs.map Pair.content) [] = some (pairs.map Pair.entry) :=
    Entries.defineAll_distinct (fun pair hpair => (hpairs pair hpair).key.path_ne_nil) hdistinct
      fun _ _ => List.not_mem_nil
  cases block with
  | headed owner items => rcases hpart with hpart | ⟨group, hpart⟩ <;> cases hpart
  | below owner isElement key path pairs =>
      obtain ⟨hkey, -, -, hpairs⟩ := hspelled
      rcases hpart with hpart | ⟨group, hpart⟩
      · cases hpart
      · rw [belowIn?] at hpart
        split_ifs at hpart
        cases hpart
        exact Step.exists_change_ofSection hkey.path_ne_nil (hfilled hpairs hdistinct)
  | other isElement key path pairs =>
      obtain ⟨hkey, -, -, hpairs⟩ := hspelled
      rcases hpart with hpart | ⟨group, hpart⟩
      · cases hpart
        exact Step.exists_change_ofSection hkey.path_ne_nil (hfilled hpairs hdistinct)
      · cases hpart

namespace Layout

/-- The items of a group's table are written as such. -/
theorem Spelled.exists_depth (hspelled : layout.Spelled settings)
    (hitems : items ∈ layout.tables group) (hitem : item ∈ items) :
    ∃ depth, item.Spelled settings depth := by
  rcases mem_tables.mp hitems with ⟨rfl, -⟩ | hbraces | hheaded
  · exact ⟨_, (hspelled.root _ (mem_dotted.mp hitem)).1⟩
  · exact ⟨_, (hspelled.root _ hbraces).1 item hitem⟩
  · exact ⟨_, hspelled.blocks _ hheaded item hitem⟩

/-- What is said of a group besides the settings can be taken alone. -/
theorem Spelled.exists_change (hspelled : layout.Spelled settings) (hdistinct : layout.Distinct)
    {member : Member} (hmember : member ∈ layout.membersOf group)
    (hother : member.isOther = true) :
    ∃ value, (member.step settings).change none = some value := by
  rcases mem_membersOf hmember with ⟨items, hitems, item, hitem, rfl⟩ | ⟨part, hpart, rfl⟩
  · obtain ⟨depth, hpair⟩ := hspelled.exists_depth hitems hitem
    cases item with
    | setting which text => cases hother
    | other pair => exact Step.exists_change_ofPair hpair.key.path_ne_nil
  · obtain ⟨block, hblock, hselect⟩ := List.mem_filterMap.mp hpart
    exact (hspelled.blocks block hblock).exists_change (hdistinct.under block hblock)
      (.inr ⟨group, hselect⟩)

/-- What belongs to no group makes a table. -/
theorem Spelled.exists_others (hspelled : layout.Spelled settings)
    (hdistinct : layout.Distinct) :
    ∃ final, Step.run (((layout.root.filterMap RootLine.other?).map fun pair =>
        Step.ofPair pair.content)
      ++ (layout.blocks.filterMap Block.other?).map Step.ofSection) [] = some final := by
  refine Step.run_of_distinct ?_ ?_
  · simpa [key_ofPair_eq, key_ofSection_eq, Function.comp_def] using hdistinct.outside
  · intro step hstep
    rcases List.mem_append.mp hstep with hstep | hstep
    · obtain ⟨pair, hpair, rfl⟩ := List.mem_map.mp hstep
      obtain ⟨line, hline, hselect⟩ := List.mem_filterMap.mp hpair
      have hread := hspelled.root line hline
      cases line <;> cases hselect
      exact Step.exists_change_ofPair hread.1.key.path_ne_nil
    · obtain ⟨part, hpart, rfl⟩ := List.mem_map.mp hstep
      obtain ⟨block, hblock, hselect⟩ := List.mem_filterMap.mp hpart
      exact (hspelled.blocks block hblock).exists_change (hdistinct.under block hblock)
        (.inl hselect)

/-- What is said of a group besides the settings makes a table. -/
theorem Spelled.exists_inside (hspelled : layout.Spelled settings) (hdistinct : layout.Distinct)
    (group : Group) :
    ∃ inner, build settings ((layout.membersOf group).filter Member.isOther) = some inner := by
  refine Step.run_of_distinct ?_ ?_
  · simpa [Member.key_step, Function.comp_def] using hdistinct.inside group
  · intro step hstep
    obtain ⟨member, hmember, rfl⟩ := List.mem_map.mp hstep
    obtain ⟨hmember, hother⟩ := List.mem_filter.mp hmember
    exact hspelled.exists_change hdistinct hmember hother

/-- A layout that spells its settings writes them, if no two keys or headers that mean
nothing begin alike. -/
theorem Spelled.writes (hwritable : Writable settings) (hspelled : layout.Spelled settings)
    (hdistinct : layout.Distinct) : layout.Writes settings where
  toSpelled := hspelled
  together := by
    have hgroups (group : Group) : ∃ last?,
        Step.told group.name (layout.bare.steps settings) none = some last? := by
      obtain ⟨inner, hinner⟩ := hspelled.exists_inside hdistinct group
      obtain ⟨origin?, htold, -⟩ := hspelled.bare.told_group hwritable group
      rw [membersOf_bare, hinner] at htold
      exact ⟨_, htold⟩
    have hothers (name : String) (hname : ∀ group : Group, group.name ≠ name) : ∃ last?,
        Step.told name (layout.bare.steps settings) none = some last? := by
      obtain ⟨final, hfinal⟩ := hspelled.exists_others hdistinct
      exact ⟨_, (told_other settings layout hname).symm.trans
        ((told_others settings layout hname).trans (Step.told_of_run hfinal name))⟩
    obtain ⟨entries, hrun, -⟩ := run_of_groups hgroups hothers
    rw [parse?_text (hspelled.bare.lines_spelled hwritable)]
    exact ⟨entries, hrun⟩

end Layout

end Turnstile.Settings
