/-
Settings as they may be written.

A layout says which settings a document gives and how: each group as a table
with a header, as dotted keys in front of all headers, or as a table in braces
there; in any order, the lines of one group among those of others, and with
keys and tables in between that mean nothing here, also in the groups and below
them. The values stand in the layout as texts, and `Layout.Writes` says that they
are texts of the given settings, that no group is written in two ways and no setting
twice, and that what has no meaning here is TOML.

`Layout.text` is the document, and `Layout.outcome` what is to be read from it:
the settings that are written, and the defaults of all others.

What has no meaning may be anything that the reader takes. Toml/Grammar.lean and
Settings/Distinct.lean say of many texts that it does, in terms that are not the
reader's.

Chain (settings): Toml/Written.lean and Settings/Fields.lean below;
Settings/Lines.lean above.
-/
import Mathlib
import Turnstile.Proofs.Settings.Fields
import Turnstile.Proofs.Toml.Written

namespace Turnstile.Settings

open Text (decimalDigits)
open Toml (Value Entries Pair Quoted SpellsNatural SpellsFloat commas)

-- ============================================================ the settings

/-- A group of settings. -/
inductive Group where
  | server
  | rateLimit
  | crossOrigin
deriving DecidableEq

/-- A single setting. -/
inductive Setting where
  | port
  | enabled
  | rps
  | burst
  | evictionInterval
  | allowedOrigins
  | maxAgeSeconds
deriving DecidableEq

/-- The key of a group. -/
def Group.name : Group → String
  | .server => "server"
  | .rateLimit => "rate_limit"
  | .crossOrigin => "cors"

/-- The keys of a group's settings. -/
def Group.fieldNames : Group → List String
  | .server => Server.names
  | .rateLimit => RateLimit.names
  | .crossOrigin => CrossOrigin.names

namespace Setting

/-- The group of a setting. -/
def group : Setting → Group
  | port => .server
  | enabled | rps | burst | evictionInterval => .rateLimit
  | allowedOrigins | maxAgeSeconds => .crossOrigin

/-- The key of a setting in its group. -/
def name : Setting → String
  | port => "port"
  | enabled => "enabled"
  | rps => "rps"
  | burst => "burst"
  | evictionInterval => "eviction_interval"
  | allowedOrigins => "allowed_origins"
  | maxAgeSeconds => "max_age_seconds"

/-- A number of nanoseconds with its unit. -/
def intervalText (interval : Duration) : List Char :=
  decimalDigits interval.nanos ++ ['n', 's']

/-- The value of a setting in a document. -/
def value (settings : Settings) : Setting → Value
  | port => .integer settings.server.port.toNat
  | enabled => .boolean settings.rateLimit.enabled
  | rps => .float settings.rateLimit.rps
  | burst => .integer settings.rateLimit.burst.toNat
  | evictionInterval =>
      .text (String.ofList (intervalText settings.rateLimit.evictionInterval))
  | allowedOrigins => .array (settings.crossOrigin.allowedOrigins.map .text)
  | maxAgeSeconds => .integer settings.crossOrigin.maxAgeSeconds.toNat

/-- The text is one of those in which the setting may be written: numbers as
numbers, where a rate is any float that rounds to it; strings as basic strings
with escapes. -/
def Written (settings : Settings) (text : List Char) : Setting → Prop
  | port => SpellsNatural text settings.server.port.toNat
  | enabled =>
      text = if settings.rateLimit.enabled then ['t', 'r', 'u', 'e']
        else ['f', 'a', 'l', 's', 'e']
  | rps => ∃ d : Decimal, SpellsFloat text d
      ∧ Binary64.ofRat d.negative d.toRat = settings.rateLimit.rps
  | burst => SpellsNatural text settings.rateLimit.burst.toNat
  | evictionInterval => Quoted text (intervalText settings.rateLimit.evictionInterval)
  | allowedOrigins => ∃ texts : List (List Char), text = '[' :: (commas texts ++ [']'])
      ∧ List.Forall₂ (fun text origin => Quoted text origin.toList) texts
        settings.crossOrigin.allowedOrigins
  | maxAgeSeconds => SpellsNatural text settings.crossOrigin.maxAgeSeconds.toNat

end Setting

/-- The settings can be written: the rate is a number, and the whole numbers are
such as a document may hold. -/
structure Writable (settings : Settings) : Prop where
  rate : settings.rateLimit.rps.isFinite = true
  interval : settings.rateLimit.evictionInterval.nanos ≤ 2 ^ 53
  age : settings.crossOrigin.maxAgeSeconds.toNat ≤ 2 ^ 63 - 1

-- ============================================================== the layout

/-- What stands in a group: a setting with the text of its value, or another
pair. -/
inductive Item where
  | setting (which : Setting) (text : List Char)
  | other (pair : Pair)

/-- A line before the first header: a pair that belongs to no group, an item of a
group under a dotted key, or a group in braces. -/
inductive RootLine where
  | other (pair : Pair)
  | dotted (group : Group) (item : Item)
  | braces (group : Group) (items : List Item)

/-- A header and what stands under it: a group, or a table or an element of an
array of tables, in a group or outside of all. -/
inductive Block where
  | headed (group : Group) (items : List Item)
  | below (group : Group) (isElement : Bool) (key : List Char) (path : List String)
      (pairs : List Pair)
  | other (isElement : Bool) (key : List Char) (path : List String) (pairs : List Pair)

/-- The lines of a document, in order. -/
structure Layout where
  root : List RootLine
  blocks : List Block

namespace Item

/-- The setting, if the item is one. -/
def setting? : Item → Option Setting
  | setting which _ => some which
  | other _ => none

/-- The pair, if the item is no setting. -/
def other? : Item → Option Pair
  | setting _ _ => none
  | other pair => some pair

/-- The item is no setting. -/
def isOther : Item → Bool
  | setting _ _ => false
  | other _ => true

/-- The pair that an item is, for the given settings. -/
def pair (settings : Settings) : Item → Pair
  | setting which text => ⟨which.name.toList, [which.name], text, which.value settings⟩
  | other pair => pair

/-- The key and the value as they are written. -/
def line : Item → List Char
  | setting which text => which.name.toList ++ (' ' :: '=' :: ' ' :: text)
  | other pair => pair.line

/-- The text of the value is one of the setting, or of any value. -/
def Spelled (settings : Settings) (depth : ℕ) : Item → Prop
  | setting which text => which.Written settings text
  | other pair => pair.Spelled depth

end Item

/-- The text of a line. -/
def RootLine.text : RootLine → List Char
  | other pair => pair.line ++ ['\n']
  | dotted group item => group.name.toList ++ ('.' :: (item.line ++ ['\n']))
  | braces group items =>
      group.name.toList ++
        (' ' :: '=' :: ' ' :: '\x7b' :: (commas (items.map Item.line) ++ ['\x7d', '\n']))

/-- The items of a line. -/
def RootLine.items : RootLine → List Item
  | other _ => []
  | dotted _ item => [item]
  | braces _ items => items

/-- The item, if the line is one of the group under a dotted key. -/
def RootLine.dottedIn? (group : Group) : RootLine → Option Item
  | dotted owner item => if owner = group then some item else none
  | _ => none

/-- The items, if the line is the group in braces. -/
def RootLine.bracedIn? (group : Group) : RootLine → Option (List Item)
  | braces owner items => if owner = group then some items else none
  | _ => none

/-- What is left of a line without the settings, if anything is. -/
def RootLine.bare? : RootLine → Option RootLine
  | other pair => some (other pair)
  | dotted group item => if item.isOther then some (dotted group item) else none
  | braces group items => some (braces group (items.filter Item.isOther))

/-- The text of a header. -/
def headerText (isElement : Bool) (key : List Char) : List Char :=
  if isElement then '[' :: '[' :: (key ++ [']', ']', '\n']) else '[' :: (key ++ [']', '\n'])

/-- The text of a header and of the lines under it. -/
def Block.text : Block → List Char
  | headed group items =>
      headerText false group.name.toList ++ items.flatMap fun item => item.line ++ ['\n']
  | below group isElement key _ pairs =>
      headerText isElement (group.name.toList ++ '.' :: key)
        ++ pairs.flatMap fun pair => pair.line ++ ['\n']
  | other isElement key _ pairs =>
      headerText isElement key ++ pairs.flatMap fun pair => pair.line ++ ['\n']

/-- The items under a header. -/
def Block.items : Block → List Item
  | headed _ items => items
  | _ => []

/-- The items, if the header is that of the group. -/
def Block.headedIn? (group : Group) : Block → Option (List Item)
  | headed owner items => if owner = group then some items else none
  | _ => none

/-- The header without the group's name and what stands under it, if it is one below
the group. -/
def Block.belowIn? (group : Group) : Block → Option Toml.Section
  | below owner isElement _ path pairs =>
      if owner = group then some ⟨isElement, path, pairs.map Pair.content⟩ else none
  | _ => none

/-- What is left of a header and the lines under it without the settings. -/
def Block.bare : Block → Block
  | headed group items => headed group (items.filter Item.isOther)
  | block => block

namespace Layout

variable (layout : Layout)

/-- The document. -/
def text : List Char :=
  layout.root.flatMap RootLine.text ++ layout.blocks.flatMap Block.text

/-- The settings that are written. -/
def written : List Setting :=
  (layout.root.flatMap RootLine.items ++ layout.blocks.flatMap Block.items).filterMap
    Item.setting?

/-- What is to be read from the document: the settings that are written, and the
defaults of all others. -/
def outcome (settings : Settings) : Settings where
  server :=
    ⟨if .port ∈ layout.written then settings.server.port else Server.default.port⟩
  rateLimit :=
    { enabled :=
        if .enabled ∈ layout.written then settings.rateLimit.enabled
        else RateLimit.default.enabled
      rps :=
        if .rps ∈ layout.written then settings.rateLimit.rps else RateLimit.default.rps
      burst :=
        if .burst ∈ layout.written then settings.rateLimit.burst
        else RateLimit.default.burst
      evictionInterval :=
        if .evictionInterval ∈ layout.written then settings.rateLimit.evictionInterval
        else RateLimit.default.evictionInterval }
  crossOrigin :=
    { allowedOrigins :=
        if .allowedOrigins ∈ layout.written then settings.crossOrigin.allowedOrigins
        else CrossOrigin.default.allowedOrigins
      maxAgeSeconds :=
        if .maxAgeSeconds ∈ layout.written then settings.crossOrigin.maxAgeSeconds
        else CrossOrigin.default.maxAgeSeconds }

-- ========================================================= what is written where

/-- The items of a group under dotted keys. -/
def dotted (group : Group) : List Item :=
  layout.root.filterMap (RootLine.dottedIn? group)

/-- The tables in braces of a group. -/
def braced (group : Group) : List (List Item) :=
  layout.root.filterMap (RootLine.bracedIn? group)

/-- The tables with a header of a group. -/
def headed (group : Group) : List (List Item) :=
  layout.blocks.filterMap (Block.headedIn? group)

/-- The headers below a group, and what stands under them. -/
def below (group : Group) : List Toml.Section :=
  layout.blocks.filterMap (Block.belowIn? group)

/-- The tables of a group, in whatever way they are written. -/
def tables (group : Group) : List (List Item) :=
  (if layout.dotted group = [] then [] else [layout.dotted group])
    ++ layout.braced group ++ layout.headed group

/-- What is left of the document without the settings. -/
def bare : Layout where
  root := layout.root.filterMap RootLine.bare?
  blocks := layout.blocks.map Block.bare

end Layout

/-- The items can stand in one table of the group: the settings are its own, none
is written twice, and the other pairs have other keys. -/
structure IsTable (group : Group) (items : List Item) : Prop where
  own : ∀ which ∈ items.filterMap Item.setting?, which.group = group
  once : (items.filterMap Item.setting?).Nodup
  foreign : ∀ pair ∈ items.filterMap Item.other?,
    ∀ name ∈ pair.path.head?, name ∉ group.fieldNames

/-- Settings alone make a table. -/
theorem IsTable.of_settings {group : Group} {items : List Item}
    (hothers : items.filterMap Item.other? = [])
    (hown : ∀ which ∈ items.filterMap Item.setting?, which.group = group)
    (honce : (items.filterMap Item.setting?).Nodup) : IsTable group items where
  own := hown
  once := honce
  foreign := by rw [hothers]; exact List.forall_mem_nil _

/-- The pairs that are no settings can stand in one table. -/
def Together (items : List Item) : Prop :=
  ∃ entries, Entries.defineAll ((items.filterMap Item.other?).map Pair.content) []
    = some entries

/-- The key begins with no group's name. -/
def Outside (path : List String) : Prop :=
  ∀ name ∈ path.head?, ∀ group : Group, name ≠ group.name

/-- The texts of a line are those of the settings, and of TOML. -/
def RootLine.Spelled (settings : Settings) : RootLine → Prop
  | other pair => pair.Spelled Toml.deepestNesting ∧ Outside pair.path
  | dotted _ item =>
      item.Spelled settings Toml.deepestNesting
        ∧ (item.pair settings).path.length < Toml.longestKey
  | braces _ items =>
      (∀ item ∈ items, item.Spelled settings (Toml.deepestNesting - 1)) ∧ Together items

/-- The texts of a header and of the lines under it are those of the settings,
and of TOML. -/
def Block.Spelled (settings : Settings) : Block → Prop
  | headed _ items => ∀ item ∈ items, item.Spelled settings Toml.deepestNesting
  | below group _ key path pairs =>
      Toml.SpellsKey key path ∧ path.length < Toml.longestKey
        ∧ (∀ name ∈ path.head?, name ∉ group.fieldNames)
        ∧ ∀ pair ∈ pairs, pair.Spelled Toml.deepestNesting
  | other _ key path pairs =>
      Toml.SpellsKey key path ∧ path.length ≤ Toml.longestKey ∧ Outside path
        ∧ ∀ pair ∈ pairs, pair.Spelled Toml.deepestNesting

/-- The layout spells the settings: its texts are theirs, each group is written in
one way at most, nothing stands below a group in braces, and no setting is written
twice. -/
structure Layout.Spelled (layout : Layout) (settings : Settings) : Prop where
  root : ∀ line ∈ layout.root, line.Spelled settings
  blocks : ∀ block ∈ layout.blocks, block.Spelled settings
  once : ∀ group, (layout.tables group).length ≤ 1
  closed : ∀ group, layout.braced group = [] ∨ layout.below group = []
  tables : ∀ group, ∀ items ∈ layout.tables group, IsTable group items

/-- The layout writes the settings: it spells them, and what is left without them is
a document. -/
structure Layout.Writes (layout : Layout) (settings : Settings) : Prop
    extends layout.Spelled settings where
  together : ∃ entries, Toml.parse? (String.ofList layout.bare.text) = some entries

end Turnstile.Settings
