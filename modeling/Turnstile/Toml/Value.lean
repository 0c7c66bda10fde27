/-
TOML values and tables.

A table keeps its entries in the order of first appearance, and how it
came into being: later lines of a document may extend some tables and not
others (Toml/Table.lean). Arrays of tables, written with double brackets,
are a kind of their own for the same reason. Of dates and times the
library only needs to know that they are there.
-/
import Turnstile.Binary64.Basic

namespace Turnstile.Toml

/-- How a table came into being. -/
inductive Origin where
  /-- Written with braces; it cannot be extended. -/
  | braces
  /-- Written as a header of its own. -/
  | header
  /-- Only passed through by a longer header so far. -/
  | implied
  /-- Made by a dotted key. -/
  | dotted
deriving DecidableEq, Repr

/-- A TOML value. -/
inductive Value where
  | text (value : String)
  | integer (value : Int)
  | float (value : Binary64)
  | boolean (value : Bool)
  /-- A date, a time, or both. -/
  | moment
  | array (elements : List Value)
  | table (origin : Origin) (entries : List (String × Value))
  /-- An array of tables, each opened by a header. -/
  | tables (elements : List (List (String × Value)))

/-- The entries of a table, in the order of first appearance. -/
abbrev Entries := List (String × Value)

end Turnstile.Toml
