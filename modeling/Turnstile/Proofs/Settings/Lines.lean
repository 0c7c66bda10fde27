/-
The lines of a layout are lines of TOML.

Each item, each line before the headers and each header of a layout is a pair or
a header as TOML writes them, if the texts of the settings are (`lines_spelled`
in Settings/Told.lean says so of a whole layout). So the document reads back as
what its lines do to the top table, one step for each pair before the headers and
one for each header with the pairs under it (`Layout.parse?_text`).

Chain (settings): Layout.lean, Toml/Steps.lean and Toml/Written.lean below;
Members.lean above.
-/
import Mathlib
import Turnstile.Proofs.Settings.Layout
import Turnstile.Proofs.Toml.Steps

namespace Turnstile.Settings

open Toml (Value Entries Pair Line Step Statement Reads SpellsKey commas)

variable {settings : Settings} {which : Setting} {group : Group} {text : List Char}
  {depth : ℕ} {item : Item} {items : List Item} {layout : Layout} {name : String}

-- ================================================================== names

theorem Group.name_injective : Function.Injective Group.name := by
  intro group other hsame
  cases group <;> cases other <;> first | rfl | simp [Group.name] at hsame

theorem Setting.name_injective : Function.Injective Setting.name := by
  intro which other hsame
  cases which <;> cases other <;> first | rfl | simp [Setting.name] at hsame

theorem Setting.name_mem (which : Setting) : which.name ∈ which.group.fieldNames := by
  cases which <;> simp [Setting.name, Setting.group, Group.fieldNames, Server.names,
    RateLimit.names, CrossOrigin.names]

/-- The keys of a group are those of its settings. -/
theorem Group.exists_setting (hname : name ∈ group.fieldNames) :
    ∃ which : Setting, which.group = group ∧ which.name = name := by
  cases group <;>
    simp only [Group.fieldNames, Server.names, RateLimit.names, CrossOrigin.names,
      List.mem_cons, List.not_mem_nil, or_false] at hname
  · exact ⟨.port, rfl, hname.symm⟩
  · rcases hname with rfl | rfl | rfl | rfl
    · exact ⟨.enabled, rfl, rfl⟩
    · exact ⟨.rps, rfl, rfl⟩
    · exact ⟨.burst, rfl, rfl⟩
    · exact ⟨.evictionInterval, rfl, rfl⟩
  · rcases hname with rfl | rfl
    · exact ⟨.allowedOrigins, rfl, rfl⟩
    · exact ⟨.maxAgeSeconds, rfl, rfl⟩

/-- A name of letters and underscores may stand as it is. -/
theorem spellsPart_bare (nonempty : name.toList ≠ [])
    (hbare : name.toList.all Toml.isBare = true) : Toml.SpellsPart name.toList name := by
  have hpart := Toml.SpellsPart.bare nonempty (List.all_eq_true.mp hbare)
  rwa [String.ofList_toList] at hpart

theorem Group.spellsPart (group : Group) :
    Toml.SpellsPart group.name.toList group.name := by
  cases group <;> exact spellsPart_bare (by simp [Group.name]) (by rfl)

theorem Setting.spellsKey (which : Setting) : SpellsKey which.name.toList [which.name] := by
  refine .last ?_
  cases which <;> exact spellsPart_bare (by simp [Setting.name]) (by rfl)

-- ================================================================== items

/-- The value of a setting reads back. -/
theorem Setting.Written.reads (hwritable : Writable settings)
    (hwritten : which.Written settings text) (depth : ℕ) :
    Reads (depth + 1) text (which.value settings) := by
  cases which with
  | port =>
      have hlt := settings.server.port.toNat_lt
      exact Toml.reads_natural hwritten (by omega) _
  | enabled =>
      rw [show text = _ from hwritten]
      exact Toml.reads_boolean _ _
  | rps =>
      obtain ⟨d, hspelled, hround⟩ := hwritten
      rw [← Decimal.toBinary64_eq] at hround
      have hfinite : d.toBinary64 ≠ .infinity false := by
        intro hinfinite
        have hrate := hwritable.rate
        rw [← hround, hinfinite] at hrate
        cases hrate
      have hreads := Toml.reads_float hspelled hfinite (depth + 1)
      rwa [hround] at hreads
  | burst =>
      have hlt := settings.rateLimit.burst.toNat_lt
      exact Toml.reads_natural hwritten (by omega) _
  | evictionInterval => exact Toml.reads_quoted hwritten _
  | allowedOrigins =>
      obtain ⟨texts, rfl, horigins⟩ := hwritten
      refine Toml.reads_array (List.forall₂_map_right_iff.mpr (horigins.imp ?_))
      intro text origin hquoted
      have hreads := Toml.reads_quoted hquoted depth
      rwa [String.ofList_toList] at hreads
  | maxAgeSeconds =>
      have hle := hwritable.age
      exact Toml.reads_natural hwritten (by omega) _

theorem Item.line_eq (settings : Settings) (item : Item) :
    item.line = (item.pair settings).line := by
  cases item <;> rfl

/-- An item is a pair of TOML. -/
theorem Item.Spelled.pair (hwritable : Writable settings)
    (hspelled : item.Spelled settings (depth + 1)) :
    (item.pair settings).Spelled (depth + 1) := by
  cases item with
  | setting which text =>
      exact {
        key := which.spellsKey
        short := by simp [Item.pair, Toml.longestKey]
        value := Setting.Written.reads hwritable hspelled depth }
  | other pair => exact hspelled

-- ================================================================== lines

/-- The keys of items, each with its value. -/
def contents (settings : Settings) (items : List Item) : List (List String × Value) :=
  items.map fun item => (item.pair settings).content

/-- The table of items. -/
def filled (settings : Settings) (items : List Item) : Entries :=
  (Entries.defineAll (contents settings items) []).getD []

/-- The pair that stands in a line before all headers. -/
def RootLine.pair (settings : Settings) : RootLine → Pair
  | other pair => pair
  | dotted group item =>
      ⟨group.name.toList ++ '.' :: (item.pair settings).key,
        group.name :: (item.pair settings).path, (item.pair settings).text,
        (item.pair settings).value⟩
  | braces group items =>
      ⟨group.name.toList, [group.name],
        '\x7b' :: (commas ((items.map (Item.pair settings)).map Pair.line) ++ ['\x7d']),
        .table .braces (filled settings items)⟩

/-- A header as a line. -/
def headerLine (isElement : Bool) (key : List Char) (path : List String) : Line :=
  if isElement then .elementHeader key path else .tableHeader key path

/-- The header of a block. -/
def Block.header : Block → Line
  | headed group _ => headerLine false group.name.toList [group.name]
  | below group isElement key path _ =>
      headerLine isElement (group.name.toList ++ '.' :: key) (group.name :: path)
  | other isElement key path _ => headerLine isElement key path

/-- The pairs of a block. -/
def Block.pairs (settings : Settings) : Block → List Pair
  | headed _ items => items.map (Item.pair settings)
  | below _ _ _ _ pairs => pairs
  | other _ _ _ pairs => pairs

/-- A header and the pairs under it. -/
def Block.part (settings : Settings) : Block → Toml.Section
  | headed group items => ⟨false, [group.name], contents settings items⟩
  | below group isElement _ path pairs =>
      ⟨isElement, group.name :: path, pairs.map Pair.content⟩
  | other isElement _ path pairs => ⟨isElement, path, pairs.map Pair.content⟩

/-- The lines of a document. -/
def Layout.lines (settings : Settings) (layout : Layout) : List Line :=
  (layout.root.map fun line => .pair (line.pair settings))
    ++ layout.blocks.flatMap fun block =>
      block.header :: (block.pairs settings).map Line.pair

/-- What the lines of a document do to its top table. -/
def Layout.steps (settings : Settings) (layout : Layout) : List Step :=
  (layout.root.map fun line => Step.ofPair (line.pair settings).content)
    ++ layout.blocks.map fun block => Step.ofSection (block.part settings)

theorem RootLine.text_eq (settings : Settings) (line : RootLine) :
    line.text = (line.pair settings).line ++ ['\n'] := by
  have hlines (items : List Item) :
      items.map Item.line = (items.map (Item.pair settings)).map Pair.line := by
    rw [List.map_map]
    exact List.map_congr_left fun item _ => item.line_eq settings
  cases line with
  | other pair => rfl
  | dotted group item => simp [RootLine.text, RootLine.pair, Item.line_eq settings, Pair.line]
  | braces group items => simp [RootLine.text, RootLine.pair, hlines, Pair.line]

theorem text_headerLine (isElement : Bool) (key : List Char) (path : List String) :
    (headerLine isElement key path).text = headerText isElement key := by
  cases isElement <;> rfl

theorem Block.text_eq (settings : Settings) (block : Block) :
    block.text
      = block.header.text ++ ((block.pairs settings).map Line.pair).flatMap Line.text := by
  have hpairs (pairs : List Pair) : (pairs.map Line.pair).flatMap Line.text
      = pairs.flatMap fun pair => pair.line ++ ['\n'] := List.flatMap_map ..
  rw [hpairs]
  cases block <;>
    simp [Block.text, Block.header, Block.pairs, text_headerLine, List.flatMap_map,
      Item.line_eq settings]

theorem Layout.text_eq (settings : Settings) (layout : Layout) :
    layout.text = (layout.lines settings).flatMap Line.text := by
  have hroot : layout.root.flatMap RootLine.text
      = (layout.root.map fun line => Line.pair (line.pair settings)).flatMap Line.text := by
    rw [List.flatMap_map]
    exact List.flatMap_congr fun line _ => line.text_eq settings
  have hblocks : layout.blocks.flatMap Block.text
      = (layout.blocks.flatMap fun block =>
          block.header :: (block.pairs settings).map Line.pair).flatMap Line.text := by
    rw [List.flatMap_assoc]
    exact List.flatMap_congr fun block _ => block.text_eq settings
  rw [Layout.text, hroot, hblocks, ← List.flatMap_append]
  rfl

/-- A line before all headers is a pair of TOML. -/
theorem RootLine.Spelled.pair {line : RootLine} (hwritable : Writable settings)
    (hspelled : line.Spelled settings)
    (htable : ∀ group items, line = .braces group items →
      ∃ entries, Entries.defineAll (contents settings items) [] = some entries) :
    (line.pair settings).Spelled Toml.deepestNesting := by
  cases line with
  | other pair => exact hspelled.1
  | dotted group item =>
      obtain ⟨hitem, hshort⟩ := hspelled
      have hpair := Item.Spelled.pair hwritable hitem
      exact {
        key := .more group.spellsPart hpair.key
        short := hshort
        value := hpair.value }
  | braces group items =>
      obtain ⟨hitems, -⟩ := hspelled
      obtain ⟨entries, hentries⟩ := htable group items rfl
      have hpairs : ∀ pair ∈ items.map (Item.pair settings),
          pair.Spelled (Toml.deepestNesting - 1) := by
        intro pair hmem
        obtain ⟨item, hitem, rfl⟩ := List.mem_map.mp hmem
        exact Item.Spelled.pair hwritable (hitems item hitem)
      have hcontents : Entries.defineAll
          ((items.map (Item.pair settings)).map Pair.content) []
            = some (filled settings items) := by
        rw [filled, hentries, List.map_map]
        exact hentries
      exact {
        key := .last group.spellsPart
        short := by simp [RootLine.pair, Toml.longestKey]
        value := Toml.reads_braces hpairs hcontents }

theorem spelled_headerLine {isElement : Bool} {key : List Char} {path : List String}
    (hkey : SpellsKey key path) (hshort : path.length ≤ Toml.longestKey) :
    (headerLine isElement key path).Spelled := by
  cases isElement <;> exact ⟨hkey, hshort⟩

/-- The lines of a block are lines of TOML. -/
theorem Block.Spelled.lines {block : Block} (hwritable : Writable settings)
    (hspelled : block.Spelled settings) :
    block.header.Spelled ∧ ∀ pair ∈ block.pairs settings, pair.Spelled Toml.deepestNesting := by
  cases block with
  | headed group items =>
      refine ⟨spelled_headerLine (.last group.spellsPart) (by simp [Toml.longestKey]),
        fun pair hmem => ?_⟩
      obtain ⟨item, hitem, rfl⟩ := List.mem_map.mp hmem
      exact Item.Spelled.pair hwritable (hspelled item hitem)
  | below group isElement key path pairs =>
      obtain ⟨hkey, hshort, -, hpairs⟩ := hspelled
      exact ⟨spelled_headerLine (.more group.spellsPart hkey) hshort, hpairs⟩
  | other isElement key path pairs =>
      obtain ⟨hkey, hshort, -, hpairs⟩ := hspelled
      exact ⟨spelled_headerLine hkey hshort, hpairs⟩

-- ============================================================= documents

theorem sections_headerLine (isElement : Bool) (key : List Char) (path : List String)
    (pairs : List Pair) (statements : List Statement) :
    Toml.sections ((headerLine isElement key path).statement
        :: ((pairs.map Line.pair).map Line.statement ++ statements))
      = ([], ⟨isElement, path, pairs.map Pair.content ++ (Toml.sections statements).1⟩
        :: (Toml.sections statements).2) := by
  have hpairs := Line.sections_pairs pairs statements
  cases isElement with
  | true =>
      refine (Line.sections_elementHeader ..).trans ?_
      rw [hpairs]
  | false =>
      refine (Line.sections_tableHeader ..).trans ?_
      rw [hpairs]

theorem Block.sections_append (settings : Settings) (block : Block)
    (statements : List Statement) :
    Toml.sections (block.header.statement
        :: ((block.pairs settings).map Line.pair).map Line.statement ++ statements)
      = ([], ⟨(block.part settings).isElement, (block.part settings).key,
          (block.part settings).pairs ++ (Toml.sections statements).1⟩
        :: (Toml.sections statements).2) := by
  rw [List.cons_append]
  cases block with
  | headed group items =>
      refine (sections_headerLine ..).trans ?_
      simp [Block.pairs, Block.part, contents]
  | below group isElement key path pairs => exact sections_headerLine ..
  | other isElement key path pairs => exact sections_headerLine ..

theorem sections_blocks (settings : Settings) (blocks : List Block) :
    Toml.sections ((blocks.flatMap fun block =>
        block.header :: (block.pairs settings).map Line.pair).map Line.statement)
      = ([], blocks.map (Block.part settings)) := by
  induction blocks with
  | nil => rfl
  | cons block blocks ih =>
      rw [List.flatMap_cons, List.map_append, List.map_cons, Block.sections_append, ih]
      simp

/-- A document is read line by line. -/
theorem Layout.parse?_text (hspelled : ∀ line ∈ layout.lines settings, line.Spelled) :
    Toml.parse? (String.ofList layout.text) = Step.run (layout.steps settings) [] := by
  have hsections : Toml.sections ((layout.lines settings).map Line.statement)
      = ((layout.root.map (RootLine.pair settings)).map Pair.content,
        layout.blocks.map (Block.part settings)) := by
    have hroot := Line.sections_pairs (layout.root.map (RootLine.pair settings))
      ((layout.blocks.flatMap fun block =>
        block.header :: (block.pairs settings).map Line.pair).map Line.statement)
    rw [sections_blocks, List.append_nil, List.map_map (f := RootLine.pair settings)] at hroot
    rw [Layout.lines, List.map_append]
    exact hroot
  rw [layout.text_eq settings, Line.parse?_of_lines hspelled, Step.tableOf?_eq_run, hsections]
  simp [Layout.steps, Function.comp_def]

end Turnstile.Settings
