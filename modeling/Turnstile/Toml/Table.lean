/-
Building the tables of a TOML document.

A key and its value go into the table of the section where they stand;
the earlier parts of a dotted key name tables on the way, which are made
if they are missing. A section is a header with the pairs under it. What
a line may extend depends on the origin of the table that it finds:

* a dotted key passes through tables made by dotted keys, and through
  implied ones, but the value itself may only go into the former;
* a header passes through every table not written with braces, and opens
  a table that is missing or only implied;
* a doubly bracketed header adds to an array of tables of the same name,
  and both kinds of line enter such an array at its last element.

An implied table that gets its header later moves to the end of its
parent, with the entries it has. Anything else is an error.
-/
import Turnstile.Toml.Value

namespace Turnstile.Toml

namespace Entries

-- ================================================================ single entries

/-- The value of a key. -/
def find? (key : String) (entries : Entries) : Option Value :=
  entries.lookup key

/-- The entries without a key. -/
def erase (key : String) (entries : Entries) : Entries :=
  entries.filter fun entry => entry.1 != key

/-- Changes the value of a key in its place, or adds one at the end. The
change is asked with what is there, and may fail. -/
def update (key : String) (change : Option Value → Option Value) :
    Entries → Option Entries
  | [] => (change none).map fun value => [(key, value)]
  | entry :: rest =>
      if entry.1 = key then (change (some entry.2)).map fun value => (key, value) :: rest
      else (update key change rest).map (entry :: ·)

/-- Changes the last of several tables. -/
def updateLast (change : Entries → Option Entries) :
    List Entries → Option (List Entries)
  | [] => none
  | [last] => (change last).map fun changed => [changed]
  | first :: rest => (updateLast change rest).map (first :: ·)

-- ================================================================== dotted keys

/-- A dotted key may pass through a table of this origin, or with `isLast`
put its value there. -/
def admitsDotted (isLast : Bool) : Origin → Bool
  | .dotted => true
  | .implied => !isLast
  | .header => false
  | .braces => false

/-- Gives a key its value. -/
def define (value : Value) : List String → Entries → Option Entries
  | [], _ => none
  | [name], entries =>
      entries.update name fun
        | none => some value
        | some _ => none
  | name :: key, entries =>
      let isLast := key.length == 1
      entries.update name fun
        | none => (define value key []).map (.table .dotted)
        | some (.table origin inner) =>
            if admitsDotted isLast origin then
              (define value key inner).map (.table origin)
            else none
        | some (.tables elements) =>
            if isLast then none
            else (updateLast (define value key) elements).map .tables
        | some _ => none

/-- Gives keys their values, one after the other. -/
def defineAll (pairs : List (List String × Value)) (entries : Entries) :
    Option Entries :=
  pairs.foldlM (fun entries pair => entries.define pair.2 pair.1) entries

-- ====================================================================== headers

/-- Follows a header to the table before its last part and acts there. -/
def atHeader (act : String → Entries → Option Entries) :
    List String → Entries → Option Entries
  | [], _ => none
  | [name], entries => act name entries
  | name :: key, entries =>
      entries.update name fun
        | none => (atHeader act key []).map (.table .implied)
        | some (.table origin inner) =>
            if origin = .braces then none
            else (atHeader act key inner).map (.table origin)
        | some (.tables elements) =>
            (updateLast (atHeader act key) elements).map .tables
        | some _ => none

/-- Opens a table that is missing or only implied, and fills it. -/
def openTable (pairs : List (List String × Value)) (name : String)
    (entries : Entries) : Option Entries :=
  let opened (inner : Entries) :=
    (defineAll pairs inner).map fun filled =>
      erase name entries ++ [(name, .table .header filled)]
  match entries.find? name with
  | none => opened []
  | some (.table .implied inner) => opened inner
  | some _ => none

/-- Adds an element to an array of tables that is missing or there. -/
def openElement (pairs : List (List String × Value)) (name : String)
    (entries : Entries) : Option Entries := do
  let filled ← defineAll pairs []
  entries.update name fun
    | none => some (.tables [filled])
    | some (.tables elements) => some (.tables (elements ++ [filled]))
    | some _ => none

end Entries

-- ===================================================================== sections

/-- A line of a document that says something. -/
inductive Statement where
  | pair (key : List String) (value : Value)
  | tableHeader (key : List String)
  | elementHeader (key : List String)

/-- A header and the pairs under it. -/
structure Section where
  isElement : Bool
  key : List String
  pairs : List (List String × Value)

/-- The pairs before the first header, and the sections. -/
def sections : List Statement → List (List String × Value) × List Section
  | [] => ([], [])
  | .pair key value :: rest =>
      let (pairs, others) := sections rest
      ((key, value) :: pairs, others)
  | .tableHeader key :: rest =>
      let (pairs, others) := sections rest
      ([], ⟨false, key, pairs⟩ :: others)
  | .elementHeader key :: rest =>
      let (pairs, others) := sections rest
      ([], ⟨true, key, pairs⟩ :: others)

/-- Adds a section to a document. -/
def Section.addTo? (part : Section) (entries : Entries) : Option Entries :=
  let act := if part.isElement then Entries.openElement part.pairs
    else Entries.openTable part.pairs
  entries.atHeader act part.key

/-- The top table of a document. -/
def tableOf? (statements : List Statement) : Option Entries := do
  let (pairs, parts) := sections statements
  let top ← Entries.defineAll pairs []
  parts.foldlM (fun entries part => part.addTo? entries) top

end Turnstile.Toml
