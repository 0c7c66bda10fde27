/-
A document without its settings.

If the settings are taken out of a layout then what is left says of each group what
the layout says besides the settings (`Layout.membersOf_bare`), and the same of
everything else (`Layout.told_other`). So it does for the whole document to be TOML
that what is left is (`Writes.exists_entries`): among the settings it builds what it
builds alone.

Chain (settings): Told.lean below; Distinct.lean above.
-/
import Mathlib
import Turnstile.Proofs.Settings.Told

namespace Turnstile.Settings

open Toml (Value Entries Pair Step)

variable {settings : Settings} {which : Setting} {group : Group} {item : Item}
  {items : List Item} {layout : Layout} {name : String}

-- ================================================== without the settings

/-- The pair, if the line belongs to no group. -/
def RootLine.other? : RootLine → Option Pair
  | other pair => some pair
  | _ => none

/-- The header with what stands under it, if it belongs to no group. -/
def Block.other? : Block → Option Toml.Section
  | other isElement _ path pairs => some ⟨isElement, path, pairs.map Pair.content⟩
  | _ => none

namespace Layout

theorem dotted_bare (layout : Layout) (group : Group) :
    layout.bare.dotted group = (layout.dotted group).filter Item.isOther := by
  rw [dotted, bare, List.filterMap_filterMap, dotted, List.filter_filterMap]
  refine List.filterMap_congr fun line _ => ?_
  cases line with
  | other pair => rfl
  | dotted owner item =>
      by_cases howner : owner = group <;> cases hother : item.isOther <;>
        simp [RootLine.bare?, RootLine.dottedIn?, Option.filter, howner, hother]
  | braces owner items => rfl

theorem braced_bare (layout : Layout) (group : Group) :
    layout.bare.braced group = (layout.braced group).map (List.filter Item.isOther) := by
  rw [braced, bare, List.filterMap_filterMap, braced, List.map_filterMap]
  refine List.filterMap_congr fun line _ => ?_
  cases line with
  | other pair => rfl
  | dotted owner item =>
      cases hother : item.isOther <;> simp [RootLine.bare?, RootLine.bracedIn?, hother]
  | braces owner items =>
      by_cases howner : owner = group <;> simp [RootLine.bare?, RootLine.bracedIn?, howner]

theorem headed_bare (layout : Layout) (group : Group) :
    layout.bare.headed group = (layout.headed group).map (List.filter Item.isOther) := by
  rw [headed, bare, List.filterMap_map, headed, List.map_filterMap]
  refine List.filterMap_congr fun block _ => ?_
  cases block with
  | headed owner items =>
      by_cases howner : owner = group <;> simp [Block.bare, Block.headedIn?, howner]
  | below => rfl
  | other => rfl

theorem below_bare (layout : Layout) (group : Group) :
    layout.bare.below group = layout.below group := by
  rw [below, bare, List.filterMap_map, below]
  refine List.filterMap_congr fun block _ => ?_
  cases block <;> rfl

/-- What is left of a group is what is said of it besides the settings. -/
theorem membersOf_bare (layout : Layout) (group : Group) :
    layout.bare.membersOf group = (layout.membersOf group).filter Member.isOther := by
  have hdirect (items : List Item) :
      (items.map Member.direct).filter Member.isOther = (items.filter Item.isOther).map .direct :=
    List.filter_map ..
  have hblock (block : Block) :
      block.bare.membersOf group = (block.membersOf group).filter Member.isOther := by
    cases block with
    | headed owner items =>
        rw [Block.bare, Block.membersOf, Block.membersOf]
        split_ifs
        · exact (hdirect items).symm
        · rfl
    | below owner isElement key path pairs =>
        show Block.membersOf group (.below ..) = _
        rw [Block.membersOf]
        split_ifs <;> rfl
    | other => rfl
  rw [membersOf, upFront, dotted_bare, braced_bare, membersOf, upFront, List.filter_append,
    hdirect, List.filter_append, List.filter_flatten, List.filter_flatMap, bare, List.flatMap_map]
  exact congrArg _ (List.flatMap_congr fun block _ => hblock block)

/-- What concerns no group is what belongs to none. -/
theorem told_others (settings : Settings) (layout : Layout)
    (hname : ∀ group : Group, group.name ≠ name) :
    Step.told name (layout.steps settings) none
      = Step.told name (((layout.root.filterMap RootLine.other?).map fun pair =>
          Step.ofPair pair.content)
        ++ (layout.blocks.filterMap Block.other?).map Step.ofSection) none := by
  have hroot : Step.told name
        (layout.root.map fun line => Step.ofPair (line.pair settings).content) none
      = Step.told name ((layout.root.filterMap RootLine.other?).map fun pair =>
          Step.ofPair pair.content) none := by
    refine Step.told_filterMap _ _ (fun line _ pair hselect => ?_) (fun line _ hselect => ?_) none
    · cases line <;> cases hselect
      rfl
    · cases line with
      | other pair => cases hselect
      | dotted group item => exact hname group
      | braces group items => exact hname group
  have hblocks (value? : Option Value) : Step.told name
        (layout.blocks.map fun block => Step.ofSection (block.part settings)) value?
      = Step.told name ((layout.blocks.filterMap Block.other?).map Step.ofSection) value? := by
    refine Step.told_filterMap _ _ (fun block _ part hselect => ?_) (fun block _ hselect => ?_)
      value?
    · cases block <;> cases hselect
      rfl
    · cases block with
      | headed group items => exact hname group
      | below group => exact fun hkey => hname group ((Step.key_ofSection ..).symm.trans hkey)
      | other => cases hselect
  rw [steps, Step.told_append, Step.told_append, hroot]
  exact congrArg _ (funext hblocks)

/-- Under a name of no group stands what stands there without the settings. -/
theorem told_other (settings : Settings) (layout : Layout)
    (hname : ∀ group : Group, group.name ≠ name) :
    Step.told name (layout.steps settings) none
      = Step.told name (layout.bare.steps settings) none := by
  have hroot : layout.bare.root.filterMap RootLine.other?
      = layout.root.filterMap RootLine.other? := by
    rw [bare, List.filterMap_filterMap]
    refine List.filterMap_congr fun line _ => ?_
    cases line with
    | other pair => rfl
    | dotted group item => rw [RootLine.bare?]; split_ifs <;> rfl
    | braces group items => rfl
  have hblocks : layout.bare.blocks.filterMap Block.other?
      = layout.blocks.filterMap Block.other? := by
    rw [bare, List.filterMap_map]
    refine List.filterMap_congr fun block _ => ?_
    cases block <;> rfl
  rw [told_others settings layout hname, told_others settings layout.bare hname, hroot, hblocks]

end Layout

-- ================================================== layouts that write

theorem filterMap_other?_filter (items : List Item) :
    (items.filter Item.isOther).filterMap Item.other? = items.filterMap Item.other? := by
  rw [List.filterMap_filter]
  refine List.filterMap_congr fun item _ => ?_
  cases item <;> rfl

theorem Together.filter_isOther (htogether : Together items) :
    Together (items.filter Item.isOther) := by
  rwa [Together, filterMap_other?_filter]

/-- A table without its settings is one. -/
theorem IsTable.filter_isOther (htable : IsTable group items) :
    IsTable group (items.filter Item.isOther) where
  own := fun which hmem =>
    htable.own which ((List.filter_sublist.filterMap Item.setting?).subset hmem)
  once := htable.once.sublist (List.filter_sublist.filterMap Item.setting?)
  foreign := by
    rw [filterMap_other?_filter]
    exact htable.foreign

/-- What stands below a group has no setting's key. -/
theorem Block.Spelled.below_key_ne {block : Block} {part : Toml.Section}
    (hspelled : block.Spelled settings) (hselect : block.belowIn? group = some part)
    (hname : name ∈ group.fieldNames) : (Step.ofSection part).key ≠ name := by
  cases block with
  | headed owner items => cases hselect
  | below owner isElement key path pairs =>
      rw [Block.belowIn?] at hselect
      split_ifs at hselect with howner
      cases hselect
      obtain ⟨hkey, -, hforeign, -⟩ := hspelled
      obtain ⟨first, rest, rfl⟩ := List.exists_cons_of_ne_nil hkey.path_ne_nil
      rw [Step.key_ofSection]
      rintro rfl
      exact hforeign first rfl (howner ▸ hname)
  | other isElement key path pairs => cases hselect

namespace Layout

/-- What is said of a group can be said of one. -/
theorem Spelled.areMembers (hspelled : layout.Spelled settings) (group : Group) :
    AreMembers settings group (layout.membersOf group) where
  own := by
    rw [settings_membersOf]
    intro which hmem
    obtain ⟨item, hitem, hsetting⟩ := List.mem_filterMap.mp hmem
    obtain ⟨items, hitems, hitem⟩ := List.mem_flatten.mp hitem
    exact (hspelled.tables group items hitems).own which
      (List.mem_filterMap.mpr ⟨item, hitem, hsetting⟩)
  once := by
    rw [settings_membersOf]
    have honce := hspelled.once group
    cases htables : layout.tables group with
    | nil => exact List.nodup_nil
    | cons items rest =>
        rw [htables] at honce
        rw [eq_nil_of_cons_le_one honce, List.flatten_singleton]
        exact (hspelled.tables group items (htables ▸ List.mem_cons_self ..)).once
  foreign := by
    intro member hmember hother name hname
    rcases mem_membersOf hmember with ⟨items, hitems, item, hitem, rfl⟩ | ⟨part, hpart, rfl⟩
    · exact (hspelled.tables group items hitems).key_ne settings hitem hother hname
    · obtain ⟨block, hblock, hselect⟩ := List.mem_filterMap.mp hpart
      exact (hspelled.blocks block hblock).below_key_ne hselect hname

/-- The settings that are written are those that are said of their groups. -/
theorem Spelled.mem_written_iff (hspelled : layout.Spelled settings) (which : Setting) :
    which ∈ layout.written
      ↔ which ∈ (layout.membersOf which.group).filterMap Member.setting? := by
  have hown {group : Group} {items : List Item} {item : Item}
      (hitems : items ∈ layout.tables group) (hitem : item ∈ items)
      (hsetting : item.setting? = some which) :
      ∃ item, (∃ items ∈ layout.tables which.group, item ∈ items)
        ∧ item.setting? = some which := by
    have hgroup := (hspelled.tables group items hitems).own which
      (List.mem_filterMap.mpr ⟨item, hitem, hsetting⟩)
    exact ⟨item, ⟨items, hgroup ▸ hitems, hitem⟩, hsetting⟩
  rw [settings_membersOf]
  simp only [written, List.mem_filterMap, List.mem_append, List.mem_flatMap, List.mem_flatten]
  constructor
  · rintro ⟨item, ⟨line, hline, hitem⟩ | ⟨block, hblock, hitem⟩, hsetting⟩
    · cases line with
      | other pair => cases hitem
      | dotted group other =>
          cases List.mem_singleton.mp hitem
          have hdotted := mem_dotted.mpr hline
          exact hown (mem_tables.mpr (.inl ⟨rfl, List.ne_nil_of_mem hdotted⟩)) hdotted hsetting
      | braces group items => exact hown (mem_tables.mpr (.inr (.inl hline))) hitem hsetting
    · cases block with
      | headed group items => exact hown (mem_tables.mpr (.inr (.inr hblock))) hitem hsetting
      | below => cases hitem
      | other => cases hitem
  · rintro ⟨item, ⟨items, hitems, hitem⟩, hsetting⟩
    refine ⟨item, ?_, hsetting⟩
    rcases mem_tables.mp hitems with ⟨rfl, -⟩ | hbraces | hheaded
    · exact .inl ⟨_, mem_dotted.mp hitem, List.mem_singleton_self item⟩
    · exact .inl ⟨_, hbraces, hitem⟩
    · exact .inr ⟨_, hheaded, hitem⟩

/-- What is left of a layout spells the settings too, but none of them is written. -/
theorem Spelled.bare (hspelled : layout.Spelled settings) : layout.bare.Spelled settings where
  root := by
    intro line hmem
    obtain ⟨before, hbefore, hselect⟩ := List.mem_filterMap.mp hmem
    have hline := hspelled.root before hbefore
    cases before with
    | other pair => cases hselect; exact hline
    | dotted group item =>
        rw [RootLine.bare?] at hselect
        split_ifs at hselect
        cases hselect
        exact hline
    | braces group items =>
        cases hselect
        exact ⟨fun item hitem => hline.1 item (List.mem_of_mem_filter hitem),
          hline.2.filter_isOther⟩
  blocks := by
    intro block hmem
    obtain ⟨before, hbefore, rfl⟩ := List.mem_map.mp hmem
    have hblock := hspelled.blocks before hbefore
    cases before with
    | headed group items => exact fun item hitem => hblock item (List.mem_of_mem_filter hitem)
    | below group isElement key path pairs => exact hblock
    | other isElement key path pairs => exact hblock
  once := by
    intro group
    have honce := hspelled.once group
    rw [Layout.tables, dotted_bare, braced_bare, headed_bare]
    rw [Layout.tables] at honce
    have hdotted : (if (layout.dotted group).filter Item.isOther = [] then []
          else [(layout.dotted group).filter Item.isOther]).length
        ≤ (if layout.dotted group = [] then [] else [layout.dotted group]).length := by
      by_cases hnone : layout.dotted group = []
      · rw [hnone]
        exact le_rfl
      · rw [if_neg hnone]
        split_ifs
        · exact Nat.zero_le 1
        · exact le_rfl
    simp only [List.length_append, List.length_map] at honce ⊢
    omega
  closed := by
    intro group
    rw [braced_bare, below_bare, List.map_eq_nil_iff]
    exact hspelled.closed group
  tables := by
    intro group items hitems
    rcases mem_tables.mp hitems with ⟨rfl, hne⟩ | hbraces | hheaded
    · rw [dotted_bare] at hne ⊢
      have hdotted : layout.dotted group ≠ [] := by
        intro hnone
        rw [hnone] at hne
        exact hne rfl
      exact (hspelled.tables group _ (mem_tables.mpr (.inl ⟨rfl, hdotted⟩))).filter_isOther
    · obtain ⟨before, hbefore, rfl⟩ :=
        List.mem_map.mp (braced_bare layout group ▸ mem_braced.mpr hbraces)
      have hroot := mem_braced.mp hbefore
      exact (hspelled.tables group _ (mem_tables.mpr (.inr (.inl hroot)))).filter_isOther
    · obtain ⟨before, hbefore, rfl⟩ :=
        List.mem_map.mp (headed_bare layout group ▸ mem_headed.mpr hheaded)
      have hblocks := mem_headed.mp hbefore
      exact (hspelled.tables group _ (mem_tables.mpr (.inr (.inr hblocks)))).filter_isOther

/-- What is left of a group builds a table, as what is left of the document is one. -/
theorem Writes.exists_others (hwritable : Writable settings) (hwrites : layout.Writes settings)
    (group : Group) :
    ∃ others, build settings ((layout.membersOf group).filter Member.isOther) = some others := by
  obtain ⟨entries, hparse⟩ := hwrites.together
  rw [parse?_text (hwrites.bare.lines_spelled hwritable)] at hparse
  obtain ⟨origin?, htold, -⟩ := hwrites.bare.told_group hwritable group
  rw [membersOf_bare] at htold
  have hfound := htold.symm.trans (Step.told_of_run hparse group.name)
  obtain ⟨others, hothers, -⟩ := Option.map_eq_some_iff.mp hfound
  exact ⟨others, hothers⟩

/-- If the steps can be taken under the names of the groups and under all others then
they can be taken. -/
theorem run_of_groups {steps : List Step}
    (hgroups : ∀ group : Group, ∃ last?, Step.told group.name steps none = some last?)
    (hothers : ∀ name, (∀ group : Group, group.name ≠ name) →
      ∃ last?, Step.told name steps none = some last?) :
    ∃ entries, Step.run steps [] = some entries
      ∧ ∀ name, Step.told name steps none = some (entries.find? name) := by
  have htold (name : String) :
      ∃ last?, Step.told name steps (Entries.find? name []) = some last? := by
    by_cases hname : ∃ group : Group, group.name = name
    · obtain ⟨group, rfl⟩ := hname
      exact hgroups group
    · exact hothers name (not_exists.mp hname)
  exact Step.run_of_told htold

/-- The document is TOML. Under the name of each group stands a table, or nothing, and
the settings that are written are stated with their values, and no others are. -/
theorem Writes.exists_entries (hwritable : Writable settings)
    (hwrites : layout.Writes settings) :
    ∃ entries, Toml.parse? (String.ofList layout.text) = some entries
      ∧ (∀ group : Group, ∃ origin? inner, entries.find? group.name = asTable origin? inner)
      ∧ ∀ which : Setting,
        stated? entries which.group.name which.group.fieldNames which.name
          = if which ∈ layout.written then some (which.value settings) else none := by
  have hgroup (group : Group) : ∃ origin? inner,
      Step.told group.name (layout.steps settings) none = some (asTable origin? inner)
        ∧ (origin? = none → layout.membersOf group = [])
        ∧ ∀ which : Setting, which.group = group → inner.find? which.name
          = if which ∈ layout.written then some (which.value settings) else none := by
    have hothers := hwrites.exists_others hwritable group
    obtain ⟨inner, hbuild, hfind⟩ := (hwrites.areMembers group).exists_entries hothers
    obtain ⟨origin?, htold, hsilent⟩ := hwrites.told_group hwritable group
    rw [hbuild] at htold
    refine ⟨origin?, inner, htold, hsilent, ?_⟩
    rintro which rfl
    exact (hfind which rfl).trans (if_congr (hwrites.mem_written_iff which).symm rfl rfl)
  choose origin? inner htold hsilent hinner using hgroup
  obtain ⟨others, hothers⟩ := hwrites.together
  rw [parse?_text (hwrites.bare.lines_spelled hwritable)] at hothers
  obtain ⟨entries, hrun, hfind⟩ := run_of_groups (fun group => ⟨_, htold group⟩)
    fun name hname =>
      ⟨_, (told_other settings layout hname).trans (Step.told_of_run hothers name)⟩
  rw [← parse?_text (hwrites.lines_spelled hwritable)] at hrun
  have htable (group : Group) :
      entries.find? group.name = asTable (origin? group) (inner group) :=
    Option.some.inj ((hfind group.name).symm.trans (htold group))
  refine ⟨entries, hrun, fun group => ⟨_, _, htable group⟩, fun which => ?_⟩
  rw [stated?, htable]
  cases horigin : origin? which.group with
  | none =>
      have hwritten := hwrites.mem_written_iff which
      rw [hsilent which.group horigin] at hwritten
      rw [if_neg (hwritten.not.mpr List.not_mem_nil)]
      rfl
  | some origin => exact hinner which.group which rfl

end Layout

end Turnstile.Settings
