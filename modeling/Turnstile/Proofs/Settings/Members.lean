/-
What a document says of a group.

The items of a group and the tables below it are spread over a document, in one of
three ways, among lines of other groups and of none. In order, they are what the
document says of the group (`Layout.membersOf`). What they build in a table of their
own is known key by key: the settings and what has no meaning here concern different
keys, so each setting that is written has its value and no other setting has one, as
long as the rest builds a table (`AreMembers.exists_entries`).

Settings/Told.lean shows that they build the same in the document.

Chain (settings): Lines.lean below; Told.lean above.
-/
import Mathlib
import Turnstile.Proofs.Settings.Lines

namespace Turnstile.Settings

open Toml (Value Entries Pair Step Origin)

variable {settings : Settings} {which : Setting} {group : Group} {item : Item}
  {items : List Item} {layout : Layout} {name : String}

/-- A pair whose key begins otherwise does not concern the name. -/
theorem key_ofPair_ne {path : List String} (hname : name ≠ "")
    (hhead : ∀ first ∈ path.head?, first ≠ name) (value : Value) :
    (Step.ofPair (path, value)).key ≠ name := by
  cases path with
  | nil => exact hname.symm
  | cons first rest => exact hhead first rfl

theorem Setting.name_ne (which : Setting) : which.name ≠ "" := by
  cases which <;> simp [Setting.name]

theorem Group.name_ne (group : Group) : group.name ≠ "" := by
  cases group <;> simp [Group.name]

-- ============================================================= members

/-- What is said of a group: an item of its table, or a table below it. -/
inductive Member where
  | direct (item : Item)
  | below (part : Toml.Section)

namespace Member

/-- The setting, if the member is one. -/
def setting? : Member → Option Setting
  | direct item => item.setting?
  | below _ => none

/-- The member is no setting. -/
def isOther : Member → Bool
  | direct item => item.isOther
  | below _ => true

/-- What the member does to the table of its group. -/
def step (settings : Settings) : Member → Step
  | direct item => Step.ofPair (item.pair settings).content
  | below part => Step.ofSection part

end Member

/-- What a header says of the group, with the lines under it. -/
def Block.membersOf (group : Group) : Block → List Member
  | headed owner items => if owner = group then items.map .direct else []
  | below owner isElement _ path pairs =>
      if owner = group then [.below ⟨isElement, path, pairs.map Pair.content⟩] else []
  | other .. => []

/-- The items of the group before all headers. -/
def Layout.upFront (layout : Layout) (group : Group) : List Item :=
  layout.dotted group ++ (layout.braced group).flatten

/-- What a document says of the group. -/
def Layout.membersOf (layout : Layout) (group : Group) : List Member :=
  (layout.upFront group).map .direct ++ layout.blocks.flatMap (Block.membersOf group)

/-- What the members build in a table of their own. -/
def build (settings : Settings) (members : List Member) : Option Entries :=
  Step.run (members.map (Member.step settings)) []

theorem build_append (settings : Settings) (members more : List Member) :
    build settings (members ++ more)
      = (build settings members).bind (Step.run (more.map (Member.step settings))) := by
  rw [build, List.map_append, Step.run_append]
  rfl

/-- The members can be said of one group: the settings are its own, none is written
twice, and nothing else has the key of a setting. -/
structure AreMembers (settings : Settings) (group : Group) (members : List Member) :
    Prop where
  own : ∀ which ∈ members.filterMap Member.setting?, which.group = group
  once : (members.filterMap Member.setting?).Nodup
  foreign : ∀ member ∈ members, member.isOther = true →
    ∀ name ∈ group.fieldNames, (member.step settings).key ≠ name

theorem Item.setting?_eq_none : item.setting? = none ↔ item.isOther = true := by
  cases item <;> simp [setting?, isOther]

theorem Member.setting?_eq_none {member : Member} :
    member.setting? = none ↔ member.isOther = true := by
  cases member with
  | direct item => exact Item.setting?_eq_none
  | below part => simp [setting?, isOther]

/-- A setting gives its key its value. -/
theorem Member.step_of_setting {member : Member} (hselect : member.setting? = some which) :
    member.step settings = Step.ofPair ([which.name], which.value settings) := by
  cases member with
  | direct item =>
      cases item with
      | setting other text => cases hselect; rfl
      | other pair => cases hselect
  | below part => cases hselect

namespace AreMembers

variable {members : List Member}

/-- Under the key of a setting stands its value, if it is written. -/
theorem told_setting (hmembers : AreMembers settings group members)
    (hgroup : which.group = group) :
    Step.told which.name (members.map (Member.step settings)) none
      = some (if which ∈ members.filterMap Member.setting? then some (which.value settings)
        else none) := by
  refine (Step.told_filterMap Member.setting?
    (fun other => Step.ofPair ([other.name], other.value settings)) ?_ ?_ none).trans
    (Step.told_values Setting.name_injective hmembers.once which)
  · exact fun member _ other hselect => Member.step_of_setting hselect
  · intro member hmem hselect
    exact hmembers.foreign member hmem (Member.setting?_eq_none.mp hselect) which.name
      (hgroup ▸ which.name_mem)

/-- Under any other key stands what stands there without the settings. -/
theorem told_foreign (hmembers : AreMembers settings group members)
    (hname : name ∉ group.fieldNames) :
    Step.told name (members.map (Member.step settings)) none
      = Step.told name ((members.filter Member.isOther).map (Member.step settings)) none := by
  refine Step.told_filter Member.isOther (fun member hmem hsetting hkey => ?_) none
  obtain ⟨which, hselect⟩ : ∃ which, member.setting? = some which := by
    refine Option.ne_none_iff_exists'.mp fun hnone => ?_
    rw [Member.setting?_eq_none.mp hnone] at hsetting
    cases hsetting
  have hown := hmembers.own which (List.mem_filterMap.mpr ⟨member, hmem, hselect⟩)
  rw [Member.step_of_setting hselect] at hkey
  exact hname (hkey ▸ hown ▸ which.name_mem)

/-- If what is no setting builds a table then all do. In it each setting that is
written has its value, and no other setting has one. -/
theorem exists_entries (hmembers : AreMembers settings group members)
    (hothers : ∃ others, build settings (members.filter Member.isOther) = some others) :
    ∃ entries, build settings members = some entries
      ∧ ∀ which : Setting, which.group = group → entries.find? which.name
        = if which ∈ members.filterMap Member.setting? then some (which.value settings)
          else none := by
  have htold : ∀ name, ∃ last?, Step.told name (members.map (Member.step settings))
      (Entries.find? name []) = some last? := by
    intro name
    by_cases hname : name ∈ group.fieldNames
    · obtain ⟨which, hgroup, rfl⟩ := Group.exists_setting hname
      exact ⟨_, hmembers.told_setting hgroup⟩
    · obtain ⟨others, hothers⟩ := hothers
      exact ⟨_, (hmembers.told_foreign hname).trans (Step.told_of_run hothers name)⟩
  obtain ⟨entries, hrun, hfind⟩ := Step.run_of_told htold
  refine ⟨entries, hrun, fun which hgroup => ?_⟩
  exact Option.some.inj ((hfind which.name).symm.trans (hmembers.told_setting hgroup))

end AreMembers

-- ============================================================ one table

/-- What has no meaning among items, as pairs. -/
theorem contents_filter_isOther (settings : Settings) (items : List Item) :
    contents settings (items.filter Item.isOther)
      = (items.filterMap Item.other?).map Pair.content := by
  induction items with
  | nil => rfl
  | cons item items ih =>
      cases item with
      | setting which text => exact ih
      | other pair => exact congrArg (pair.content :: ·) ih

/-- What is no setting in a table has no setting's key. -/
theorem IsTable.key_ne (htable : IsTable group items) (settings : Settings)
    (hitem : item ∈ items) (hother : item.isOther = true) (hname : name ∈ group.fieldNames) :
    (Step.ofPair (item.pair settings).content).key ≠ name := by
  obtain ⟨which, -, rfl⟩ := Group.exists_setting hname
  cases item with
  | setting other text => cases hother
  | other pair =>
      have hforeign := htable.foreign pair (List.mem_filterMap.mpr ⟨_, hitem, rfl⟩)
      exact key_ofPair_ne which.name_ne
        (fun first hfirst hsame => hforeign first hfirst (hsame ▸ hname)) pair.value

/-- The items of a table can be said of its group. -/
theorem IsTable.areMembers (htable : IsTable group items) (settings : Settings) :
    AreMembers settings group (items.map .direct) where
  own := by
    rw [List.filterMap_map]
    exact htable.own
  once := by
    rw [List.filterMap_map]
    exact htable.once
  foreign := by
    intro member hmember hother name hname
    obtain ⟨item, hitem, rfl⟩ := List.mem_map.mp hmember
    exact htable.key_ne settings hitem hother hname

/-- The items of a group build what giving their keys their values builds. -/
theorem run_direct (settings : Settings) (items : List Item) (entries : Entries) :
    Step.run ((items.map Member.direct).map (Member.step settings)) entries
      = Entries.defineAll (contents settings items) entries := by
  rw [Step.defineAll_eq_run, contents, List.map_map, List.map_map]
  rfl

/-- A table that is written in braces is a table. -/
theorem IsTable.exists_filled (htable : IsTable group items) (htogether : Together items)
    (settings : Settings) :
    ∃ entries, Entries.defineAll (contents settings items) [] = some entries := by
  obtain ⟨others, hothers⟩ := htogether
  have hbuild : build settings ((items.map Member.direct).filter Member.isOther)
      = some others := by
    rw [List.filter_map]
    rw [← contents_filter_isOther settings] at hothers
    exact (run_direct ..).trans hothers
  obtain ⟨entries, hentries, -⟩ := (htable.areMembers settings).exists_entries ⟨_, hbuild⟩
  exact ⟨entries, (run_direct ..).symm.trans hentries⟩

-- ===================================================== where they stand

theorem RootLine.dottedIn?_eq_some {line : RootLine} :
    line.dottedIn? group = some item ↔ line = .dotted group item := by
  cases line <;> simp [dottedIn?]

theorem RootLine.bracedIn?_eq_some {line : RootLine} :
    line.bracedIn? group = some items ↔ line = .braces group items := by
  cases line <;> simp [bracedIn?]

theorem Block.headedIn?_eq_some {block : Block} :
    block.headedIn? group = some items ↔ block = .headed group items := by
  cases block <;> simp [headedIn?]

/-- What a header says is said in the table of the group, or below it. -/
theorem Block.mem_membersOf {block : Block} {member : Member}
    (hmember : member ∈ block.membersOf group) :
    (∃ items, block = .headed group items ∧ ∃ item ∈ items, member = .direct item)
      ∨ ∃ part, block.belowIn? group = some part ∧ member = .below part := by
  cases block with
  | headed owner items =>
      rw [membersOf] at hmember
      split_ifs at hmember with howner
      · obtain ⟨item, hitem, rfl⟩ := List.mem_map.mp hmember
        exact .inl ⟨items, by rw [howner], item, hitem, rfl⟩
      · cases hmember
  | below owner isElement key path pairs =>
      rw [membersOf] at hmember
      split_ifs at hmember with howner
      · exact .inr ⟨_, if_pos howner, List.mem_singleton.mp hmember⟩
      · cases hmember
  | other => cases hmember

namespace Layout

theorem mem_dotted : item ∈ layout.dotted group ↔ .dotted group item ∈ layout.root := by
  simp [dotted, RootLine.dottedIn?_eq_some]

theorem mem_braced : items ∈ layout.braced group ↔ .braces group items ∈ layout.root := by
  simp [braced, RootLine.bracedIn?_eq_some]

theorem mem_headed : items ∈ layout.headed group ↔ .headed group items ∈ layout.blocks := by
  simp [headed, Block.headedIn?_eq_some]

/-- A table of a group is written in one of three ways. -/
theorem mem_tables : items ∈ layout.tables group
    ↔ (items = layout.dotted group ∧ items ≠ []) ∨ .braces group items ∈ layout.root
      ∨ .headed group items ∈ layout.blocks := by
  unfold tables
  rw [List.append_assoc, List.mem_append, List.mem_append, mem_braced, mem_headed]
  refine or_congr_left ?_
  split_ifs with hnone
  · simp [hnone]
  · rw [List.mem_singleton]
    exact ⟨fun hsame => ⟨hsame, hsame ▸ hnone⟩, And.left⟩

/-- What is said of a group stands in a table of the group, or below it. -/
theorem mem_membersOf {member : Member} (hmember : member ∈ layout.membersOf group) :
    (∃ items ∈ layout.tables group, ∃ item ∈ items, member = .direct item)
      ∨ ∃ part ∈ layout.below group, member = .below part := by
  rcases List.mem_append.mp hmember with hmember | hmember
  · obtain ⟨item, hitem, rfl⟩ := List.mem_map.mp hmember
    rcases List.mem_append.mp hitem with hdotted | hbraced
    · exact .inl ⟨_, mem_tables.mpr (.inl ⟨rfl, List.ne_nil_of_mem hdotted⟩), item, hdotted, rfl⟩
    · obtain ⟨items, hitems, hitem⟩ := List.mem_flatten.mp hbraced
      exact .inl ⟨items, mem_tables.mpr (.inr (.inl (mem_braced.mp hitems))), item, hitem, rfl⟩
  · obtain ⟨block, hblock, hmember⟩ := List.mem_flatMap.mp hmember
    rcases Block.mem_membersOf hmember with ⟨items, rfl, hitem⟩ | ⟨part, hpart, hmember⟩
    · exact .inl ⟨items, mem_tables.mpr (.inr (.inr hblock)), hitem⟩
    · exact .inr ⟨part, List.mem_filterMap.mpr ⟨block, hblock, hpart⟩, hmember⟩

/-- The settings that are said of a group are those in its tables. -/
theorem settings_membersOf (layout : Layout) (group : Group) :
    (layout.membersOf group).filterMap Member.setting?
      = (layout.tables group).flatten.filterMap Item.setting? := by
  have hdirect (items : List Item) :
      (items.map Member.direct).filterMap Member.setting? = items.filterMap Item.setting? :=
    List.filterMap_map ..
  have hblocks (blocks : List Block) :
      (blocks.flatMap (Block.membersOf group)).filterMap Member.setting?
        = (blocks.filterMap (Block.headedIn? group)).flatten.filterMap Item.setting? := by
    induction blocks with
    | nil => rfl
    | cons block blocks ih =>
        rw [List.flatMap_cons, List.filterMap_append, ih]
        cases block with
        | headed owner items =>
            by_cases howner : owner = group
            · simp [Block.membersOf, Block.headedIn?, howner, hdirect]
            · simp [Block.membersOf, Block.headedIn?, howner]
        | below owner isElement key path pairs =>
            have hnone : Block.headedIn? group (.below owner isElement key path pairs) = none :=
              rfl
            rw [List.filterMap_cons_none hnone, Block.membersOf]
            split_ifs <;> rfl
        | other => rfl
  have hdotted : (if layout.dotted group = [] then [] else [layout.dotted group]).flatten
      = layout.dotted group := by
    split_ifs with hnone
    · exact hnone.symm
    · exact List.flatten_singleton
  rw [membersOf, List.filterMap_append, hdirect, hblocks, tables, List.flatten_append,
    List.flatten_append, hdotted, ← upFront, ← List.filterMap_append]
  rfl

end Layout

end Turnstile.Settings
