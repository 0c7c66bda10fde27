/-
Under the name of a group.

Header by header, what stands under the name of a group is changed as the group's
own table would be by what the header says of it, if the header may stand there
(`Admits`, `told_block`). Before all headers it is what dotted keys build, or a table
in braces (`Spelled.told_root`). So what stands under the name in the end is what is
said of the group, built in a table of its own, in whatever way the group is written
(`Spelled.told_group`).

Chain (settings): Members.lean below; Bare.lean above.
-/
import Mathlib
import Turnstile.Proofs.Settings.Members

namespace Turnstile.Settings

open Toml (Value Entries Pair Step Origin)

variable {settings : Settings} {group : Group} {item : Item} {items : List Item}
  {layout : Layout} {name : String}

-- ================================================ the table and its origin

/-- The table under a name, if there is one. -/
def asTable (origin? : Option Origin) (entries : Entries) : Option Value :=
  origin?.map (.table · entries)

/-- The header of a group opens its table, or the one that was passed through. -/
theorem openedBy_asTable {origin? : Option Origin} {entries : Entries}
    (pairs : List (List String × Value)) (hopen : origin? = none ∨ origin? = some .implied)
    (hempty : origin? = none → entries = []) :
    Entries.openedBy pairs (asTable origin? entries)
      = (Entries.defineAll pairs entries).map (.table .header) := by
  rcases hopen with rfl | rfl
  · rw [hempty rfl]
    rfl
  · rfl

/-- A header below a group goes on with its table, or makes one. -/
theorem below_asTable {origin? : Option Origin} {entries : Entries} (name : String)
    (part : Toml.Section) (hkey : part.key ≠ []) (hopen : origin? ≠ some .braces)
    (hempty : origin? = none → entries = []) :
    (Step.ofSection { part with key := name :: part.key }).change (asTable origin? entries)
      = ((Step.ofSection part).act entries).map (.table (origin?.getD .implied)) := by
  cases origin? with
  | none =>
      rw [hempty rfl]
      exact (Step.under_ofSection name hkey (show Origin.implied ≠ .braces from nofun)).2
  | some origin =>
      have hbraces : origin ≠ .braces := fun hbraces => hopen (congrArg some hbraces)
      exact (Step.under_ofSection name hkey hbraces).1.change entries

/-- A line before all headers that concerns a group is one of its own. -/
theorem RootLine.Spelled.concerns {line : RootLine} (hspelled : line.Spelled settings)
    (hkey : (Step.ofPair (line.pair settings).content).key = group.name) :
    (∃ item, line = .dotted group item) ∨ ∃ items, line = .braces group items := by
  cases line with
  | other pair =>
      exact absurd hkey (key_ofPair_ne group.name_ne
        (fun first hfirst => hspelled.2 first hfirst group) pair.value)
  | dotted owner item =>
      cases Group.name_injective hkey
      exact .inl ⟨item, rfl⟩
  | braces owner items =>
      cases Group.name_injective hkey
      exact .inr ⟨items, rfl⟩

/-- A header that concerns a group is its own or one below it. -/
theorem Block.Spelled.concerns {block : Block} (hspelled : block.Spelled settings)
    (hkey : (Step.ofSection (block.part settings)).key = group.name) :
    (∃ items, block = .headed group items)
      ∨ ∃ isElement key path pairs, block = .below group isElement key path pairs := by
  cases block with
  | headed owner items =>
      cases Group.name_injective hkey
      exact .inl ⟨items, rfl⟩
  | below owner isElement key path pairs =>
      cases Group.name_injective ((Step.key_ofSection ..).symm.trans hkey)
      exact .inr ⟨isElement, key, path, pairs, rfl⟩
  | other isElement key path pairs =>
      obtain ⟨hspelled, -, houtside, -⟩ := hspelled
      obtain ⟨first, rest, rfl⟩ := List.exists_cons_of_ne_nil hspelled.path_ne_nil
      have hfirst := Step.key_ofSection isElement first rest (pairs.map Pair.content)
      exact absurd (hfirst.symm.trans hkey) (houtside first rfl group)

theorem eq_nil_of_cons_le_one {α : Type} {x : α} {xs : List α}
    (hle : (x :: xs).length ≤ 1) : xs = [] :=
  List.length_eq_zero_iff.mp (Nat.le_zero.mp (Nat.le_of_succ_le_succ hle))

-- =========================================================== header by header

/-- How the table of a group has come into being after a header, if it is there. -/
def Block.originAfter (group : Group) (origin? : Option Origin) : Block → Option Origin
  | headed owner _ => if owner = group then some .header else origin?
  | below owner .. => if owner = group then some (origin?.getD .implied) else origin?
  | other .. => origin?

/-- The headers may follow on a table that has come into being in this way: one at
most is the group's own, and that only if the table has not been opened, and none
is below a table in braces. -/
structure Admits (group : Group) (origin? : Option Origin) (blocks : List Block) : Prop where
  once : (blocks.filterMap (Block.headedIn? group)).length ≤ 1
  opened : blocks.filterMap (Block.headedIn? group) = [] ∨ origin? = none
    ∨ origin? = some .implied
  closed : blocks.filterMap (Block.belowIn? group) = [] ∨ origin? ≠ some .braces

section

variable {block : Block} {blocks : List Block} {origin? : Option Origin} {steps : List Step}
  {entries : Entries} {isElement : Bool} {key : List Char} {path : List String}
  {pairs : List Pair}

@[simp] theorem Block.headedIn?_headed :
    Block.headedIn? group (.headed group items) = some items :=
  if_pos rfl

@[simp] theorem Block.membersOf_headed :
    Block.membersOf group (.headed group items) = items.map .direct :=
  if_pos rfl

@[simp] theorem Block.originAfter_headed :
    Block.originAfter group origin? (.headed group items) = some .header :=
  if_pos rfl

@[simp] theorem Block.belowIn?_below :
    Block.belowIn? group (.below group isElement key path pairs)
      = some ⟨isElement, path, pairs.map Pair.content⟩ :=
  if_pos rfl

@[simp] theorem Block.membersOf_below :
    Block.membersOf group (.below group isElement key path pairs)
      = [.below ⟨isElement, path, pairs.map Pair.content⟩] :=
  if_pos rfl

@[simp] theorem Block.originAfter_below :
    Block.originAfter group origin? (.below group isElement key path pairs)
      = some (origin?.getD .implied) :=
  if_pos rfl

/-- A header that does not concern a group says nothing of it. -/
theorem Block.foreign (hkey : (Step.ofSection (block.part settings)).key ≠ group.name)
    (origin? : Option Origin) :
    block.headedIn? group = none ∧ block.belowIn? group = none ∧ block.membersOf group = []
      ∧ block.originAfter group origin? = origin? := by
  cases block with
  | headed owner items =>
      have howner : owner ≠ group := fun howner => hkey (congrArg Group.name howner)
      exact ⟨if_neg howner, rfl, if_neg howner, if_neg howner⟩
  | below owner isElement key path pairs =>
      have howner : owner ≠ group := fun howner =>
        hkey ((Step.key_ofSection ..).trans (congrArg Group.name howner))
      exact ⟨rfl, if_neg howner, if_neg howner, if_neg howner⟩
  | other => exact ⟨rfl, rfl, rfl, rfl⟩

theorem Admits.next (hspelled : block.Spelled settings)
    (hadmits : Admits group origin? (block :: blocks)) :
    Admits group (block.originAfter group origin?) blocks := by
  obtain ⟨honce, hopened, hclosed⟩ := hadmits
  by_cases hkey : (Step.ofSection (block.part settings)).key = group.name
  · rcases hspelled.concerns hkey with ⟨items, rfl⟩ | ⟨isElement, key, path, pairs, rfl⟩
    · rw [List.filterMap_cons_some Block.headedIn?_headed] at honce
      have hrest := eq_nil_of_cons_le_one honce
      rw [Block.originAfter_headed]
      exact ⟨hrest ▸ Nat.zero_le 1, .inl hrest, .inr nofun⟩
    · rw [List.filterMap_cons_none (f := Block.headedIn? group) rfl] at honce hopened
      rw [List.filterMap_cons_some Block.belowIn?_below] at hclosed
      have hbraces := hclosed.resolve_left nofun
      rw [Block.originAfter_below]
      refine ⟨honce, hopened.imp_right ?_, .inr ?_⟩
      · rintro (rfl | rfl) <;> exact .inr rfl
      · cases origin? with
        | none => nofun
        | some origin => exact hbraces
  · obtain ⟨hheaded, hbelow, -, hsame⟩ := Block.foreign hkey origin?
    rw [List.filterMap_cons_none hheaded] at honce hopened
    rw [List.filterMap_cons_none hbelow] at hclosed
    rw [hsame]
    exact ⟨honce, hopened, hclosed⟩

/-- A header does to the table of a group what it says of the group. -/
theorem told_block (hspelled : block.Spelled settings)
    (hadmits : Admits group origin? (block :: blocks)) (hempty : origin? = none → entries = []) :
    Step.told group.name (Step.ofSection (block.part settings) :: steps) (asTable origin? entries)
      = (Step.run ((block.membersOf group).map (Member.step settings)) entries).bind
        fun changed =>
          Step.told group.name steps (asTable (block.originAfter group origin?) changed) := by
  obtain ⟨-, hopened, hclosed⟩ := hadmits
  by_cases hkey : (Step.ofSection (block.part settings)).key = group.name
  · rw [Step.told_cons_own hkey]
    rcases hspelled.concerns hkey with ⟨items, rfl⟩ | ⟨isElement, key, path, pairs, rfl⟩
    · rw [List.filterMap_cons_some Block.headedIn?_headed] at hopened
      have hchange := openedBy_asTable (contents settings items) (hopened.resolve_left nofun) hempty
      rw [Block.membersOf_headed, run_direct, Block.originAfter_headed]
      exact (congrArg (Option.bind · _) hchange).trans (Option.bind_map ..)
    · rw [List.filterMap_cons_some Block.belowIn?_below] at hclosed
      obtain ⟨hspelled, -⟩ := hspelled
      have hchange := below_asTable group.name
        ⟨isElement, path, pairs.map Pair.content⟩ hspelled.path_ne_nil
        (hclosed.resolve_left nofun) hempty
      rw [Block.membersOf_below, Block.originAfter_below, List.map_singleton, Step.run_cons,
        Option.bind_assoc]
      refine (congrArg (Option.bind · _) hchange).trans ?_
      rw [Option.bind_map]
      rfl
  · obtain ⟨-, -, hmembers, hsame⟩ := Block.foreign hkey origin?
    rw [Step.told_cons_other hkey, hmembers, hsame]
    rfl

/-- A group whose table is not there has not been spoken of. -/
theorem Block.originAfter_eq_none (hnone : block.originAfter group origin? = none) :
    origin? = none ∧ block.membersOf group = [] := by
  cases block with
  | headed owner items =>
      rw [originAfter] at hnone
      split_ifs at hnone with howner
      exact ⟨hnone, if_neg howner⟩
  | below owner isElement key path pairs =>
      rw [originAfter] at hnone
      split_ifs at hnone with howner
      exact ⟨hnone, if_neg howner⟩
  | other => exact ⟨hnone, rfl⟩

theorem originAfter_blocks_eq_none
    (hnone : blocks.foldl (Block.originAfter group) origin? = none) :
    origin? = none ∧ blocks.flatMap (Block.membersOf group) = [] := by
  induction blocks generalizing origin? with
  | nil => exact ⟨hnone, rfl⟩
  | cons block blocks ih =>
      obtain ⟨hafter, hothers⟩ := ih hnone
      obtain ⟨hbefore, hfirst⟩ := Block.originAfter_eq_none hafter
      exact ⟨hbefore, by rw [List.flatMap_cons, hfirst, hothers]; rfl⟩

/-- From the first header on a group is what the headers say of it, after what there
was before. -/
theorem told_blocks (hspelled : ∀ block ∈ blocks, block.Spelled settings)
    (hadmits : Admits group origin? blocks) (hempty : origin? = none → entries = []) :
    Step.told group.name (blocks.map fun block => Step.ofSection (block.part settings))
        (asTable origin? entries)
      = (Step.run ((blocks.flatMap (Block.membersOf group)).map (Member.step settings))
          entries).map (asTable
            (blocks.foldl (Block.originAfter group) origin?)) := by
  -- What is carried is the origin of the table: it says which headers may still come.
  induction blocks generalizing origin? entries with
  | nil => rfl
  | cons block blocks ih =>
      obtain ⟨hfirst, hothers⟩ := List.forall_mem_cons.mp hspelled
      rw [List.map_cons, told_block hfirst hadmits hempty, List.flatMap_cons, List.map_append,
        Step.run_append, Option.map_bind]
      refine Option.bind_congr fun changed hrun => ih hothers (hadmits.next hfirst) fun hnone => ?_
      obtain ⟨hbefore, hsilent⟩ := Block.originAfter_eq_none hnone
      rw [hsilent, hempty hbefore] at hrun
      exact (Option.some.inj hrun).symm

end

namespace Layout

/-- What is in braces makes a table. -/
theorem Spelled.exists_filled (hspelled : layout.Spelled settings)
    (hbraces : .braces group items ∈ layout.root) :
    ∃ entries, Entries.defineAll (contents settings items) [] = some entries := by
  have htable := hspelled.tables group items (mem_tables.mpr (.inr (.inl hbraces)))
  exact htable.exists_filled (hspelled.root _ hbraces).2 settings

/-- Before all headers, dotted keys alone may concern a group that is not in
braces. -/
theorem Spelled.told_root_dotted (hspelled : layout.Spelled settings)
    (hbraced : layout.braced group = []) (value? : Option Value) :
    Step.told group.name
        (layout.root.map fun line => Step.ofPair (line.pair settings).content) value?
      = Step.told group.name ((layout.dotted group).map fun item =>
        Step.ofPair (group.name :: (item.pair settings).path, (item.pair settings).value))
        value? := by
  refine Step.told_filterMap _ _ ?_ ?_ value?
  · intro line hline item hselect
    rw [RootLine.dottedIn?_eq_some.mp hselect]
    rfl
  · intro line hline hselect hkey
    rcases (hspelled.root line hline).concerns hkey with ⟨item, hdotted⟩ | ⟨items, rfl⟩
    · rw [RootLine.dottedIn?_eq_some.mpr hdotted] at hselect
      cases hselect
    · have hmem := mem_braced.mpr hline
      rw [hbraced] at hmem
      cases hmem

/-- Before all headers, tables in braces alone may concern a group that has no
dotted keys. -/
theorem Spelled.told_root_braced (hspelled : layout.Spelled settings)
    (hdotted : layout.dotted group = []) (value? : Option Value) :
    Step.told group.name
        (layout.root.map fun line => Step.ofPair (line.pair settings).content) value?
      = Step.told group.name ((layout.braced group).map fun items =>
        Step.ofPair ([group.name], .table .braces (filled settings items))) value? := by
  refine Step.told_filterMap _ _ ?_ ?_ value?
  · intro line hline items hselect
    rw [RootLine.bracedIn?_eq_some.mp hselect]
    rfl
  · intro line hline hselect hkey
    rcases (hspelled.root line hline).concerns hkey with ⟨item, rfl⟩ | ⟨items, hbraced⟩
    · have hmem := mem_dotted.mpr hline
      rw [hdotted] at hmem
      cases hmem
    · rw [RootLine.bracedIn?_eq_some.mpr hbraced] at hselect
      cases hselect

/-- Before all headers a group is what its dotted keys build, or its table in
braces. -/
theorem Spelled.told_root (hwritable : Writable settings) (hspelled : layout.Spelled settings)
    (group : Group) :
    ∃ origin?, Step.told group.name
          (layout.root.map fun line => Step.ofPair (line.pair settings).content) none
        = (build settings ((layout.upFront group).map .direct)).map (asTable origin?)
      ∧ (origin? = none → layout.upFront group = [])
      ∧ Admits group origin? layout.blocks := by
  -- As the group has one table at most, what stands here decides what may follow.
  have honce := hspelled.once group
  unfold Layout.tables at honce
  by_cases hdotted : layout.dotted group = []
  · rw [if_pos hdotted, List.nil_append] at honce
    rw [hspelled.told_root_braced hdotted, upFront, hdotted, List.nil_append, build, run_direct]
    cases hbraced : layout.braced group with
    | nil =>
        rw [hbraced, List.nil_append] at honce
        exact ⟨none, rfl, fun _ => rfl, honce, .inr (.inl rfl), .inr (by decide)⟩
    | cons items rest =>
        have hbelow := (hspelled.closed group).resolve_left (hbraced ▸ List.cons_ne_nil items rest)
        obtain ⟨entries, hentries⟩ := hspelled.exists_filled
          (mem_braced.mp (hbraced ▸ List.mem_cons_self ..))
        rw [hbraced, List.cons_append] at honce
        obtain ⟨rfl, hheaded⟩ := List.append_eq_nil_iff.mp (eq_nil_of_cons_le_one honce)
        refine ⟨some .braces, ?_, fun hnone => absurd hnone (by decide), ?_⟩
        · rw [List.map_singleton, Step.told_value, List.flatten_singleton, hentries, filled,
            hentries]
          rfl
        · exact ⟨(congrArg List.length hheaded).trans_le (Nat.zero_le 1), .inl hheaded, .inl hbelow⟩
  · rw [if_neg hdotted, List.append_assoc, List.singleton_append] at honce
    obtain ⟨hbraced, hheaded⟩ := List.append_eq_nil_iff.mp (eq_nil_of_cons_le_one honce)
    have hunder (item : Item) (hitem : item ∈ layout.dotted group) :=
      Step.under_ofPair group.name (item.pair settings).content
        (Item.Spelled.pair hwritable (hspelled.root _ (mem_dotted.mp hitem)).1).key.path_ne_nil
    refine ⟨some .dotted, ?_, fun hnone => absurd hnone (by decide),
      (congrArg List.length hheaded).trans_le (Nat.zero_le 1), .inl hheaded, .inr (by decide)⟩
    rw [hspelled.told_root_dotted hbraced, upFront, hbraced, List.flatten_nil, List.append_nil, build,
      List.map_map]
    exact Step.told_under_new (fun item hitem => (hunder item hitem).1)
      (fun item hitem => (hunder item hitem).2) hdotted

/-- Under the name of a group stands what is said of it, in whatever way it is. -/
theorem Spelled.told_group (hwritable : Writable settings) (hspelled : layout.Spelled settings)
    (group : Group) :
    ∃ origin?, Step.told group.name (layout.steps settings) none
        = (build settings (layout.membersOf group)).map (asTable origin?)
      ∧ (origin? = none → layout.membersOf group = []) := by
  obtain ⟨origin?, hroot, hsilent, hadmits⟩ := hspelled.told_root hwritable group
  refine ⟨layout.blocks.foldl (Block.originAfter group) origin?, ?_,
    fun hnone => ?_⟩
  · rw [steps, Step.told_append, hroot, Option.bind_map, membersOf, build_append,
      Option.map_bind]
    refine Option.bind_congr fun entries hrun => ?_
    refine told_blocks hspelled.blocks hadmits fun hnone => ?_
    rw [hsilent hnone] at hrun
    exact (Option.some.inj hrun).symm
  · obtain ⟨hbefore, hblocks⟩ := originAfter_blocks_eq_none hnone
    rw [membersOf, hsilent hbefore, hblocks]
    rfl

/-- The lines of a layout are lines of TOML. -/
theorem Spelled.lines_spelled (hwritable : Writable settings) (hspelled : layout.Spelled settings) :
    ∀ line ∈ layout.lines settings, line.Spelled := by
  intro line hmem
  rcases List.mem_append.mp hmem with hmem | hmem
  · obtain ⟨root, hroot, rfl⟩ := List.mem_map.mp hmem
    refine (hspelled.root root hroot).pair hwritable ?_
    rintro group items rfl
    exact hspelled.exists_filled hroot
  · obtain ⟨block, hblock, hline⟩ := List.mem_flatMap.mp hmem
    obtain ⟨hheader, hpairs⟩ := (hspelled.blocks block hblock).lines hwritable
    rcases List.mem_cons.mp hline with rfl | hline
    · exact hheader
    · obtain ⟨pair, hpair, rfl⟩ := List.mem_map.mp hline
      exact hpairs pair hpair

end Layout

end Turnstile.Settings
