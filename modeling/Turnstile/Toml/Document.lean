/-
Reading a TOML document.

A document is a sequence of lines: pairs of a key and a value, headers of
tables and of elements of arrays of tables, comments, and empty lines.
All of it is read into statements before any table is built, so a fault
anywhere in the text is found first. Values nest at most seventy-nine
deep, which is also what the recursion in `value?` goes by.
-/
import Turnstile.Toml.Moment
import Turnstile.Toml.Number
import Turnstile.Toml.Quoted
import Turnstile.Toml.Table

namespace Turnstile.Toml

-- ======================================================================= values

/-- A value that holds no other values. -/
def scalarValue? (cs : List Char) : Option (Value × List Char) :=
  match cs with
  | 't' :: 'r' :: 'u' :: 'e' :: rest => some (.boolean true, rest)
  | 'f' :: 'a' :: 'l' :: 's' :: 'e' :: rest => some (.boolean false, rest)
  | _ =>
      ((text? cs).map fun (value, rest) => (Value.text value, rest)).or <|
        ((moment? cs).map fun rest => (Value.moment, rest)).or (number? cs)

/-- The elements of an array, up to the closing bracket; at most `limit`. -/
def elements? (value? : List Char → Option (Value × List Char)) (limit : Nat)
    (cs : List Char) : Option (List Value × List Char) :=
  match limit with
  | 0 => none
  | limit + 1 =>
      match skipGap false cs with
      | ']' :: rest => some ([], rest)
      | cs => do
          let (value, rest) ← value? cs
          match skipGap false rest with
          | ',' :: rest => do
              let (values, rest) ← elements? value? limit rest
              return (value :: values, rest)
          | ']' :: rest => return ([value], rest)
          | _ => none

/-- A key, the sign of equality, and a value. -/
def pair? (value? : List Char → Option (Value × List Char)) (cs : List Char) :
    Option ((List String × Value) × List Char) := do
  let (key, rest) ← key? cs
  match rest with
  | '=' :: rest => do
      let (value, rest) ← value? (skipSpace rest)
      return ((key, value), rest)
  | _ => none

/-- The pairs of a table in braces, up to the closing brace; at least one
and at most `limit`. -/
def bracePairs? (value? : List Char → Option (Value × List Char)) (limit : Nat)
    (cs : List Char) : Option (List (List String × Value) × List Char) :=
  match limit with
  | 0 => none
  | limit + 1 => do
      let (pair, rest) ← pair? value? cs
      match skipSpace rest with
      | ',' :: rest => do
          let (pairs, rest) ← bracePairs? value? limit rest
          return (pair :: pairs, rest)
      | '\x7d' :: rest => return ([pair], rest)
      | _ => none

/-- A table in braces, after the opening brace. -/
def braceTable? (value? : List Char → Option (Value × List Char))
    (cs : List Char) : Option (Value × List Char) :=
  match skipSpace cs with
  | '\x7d' :: rest => some (.table .braces [], rest)
  | _ => do
      let (pairs, rest) ← bracePairs? value? cs.length cs
      let entries ← Entries.defineAll pairs []
      return (.table .braces entries, rest)

/-- A value in which arrays and tables nest at most `depth` deep. -/
def value? : Nat → List Char → Option (Value × List Char)
  | depth + 1, '[' :: rest =>
      (elements? (value? depth) (rest.length + 1) rest).map fun (values, rest) =>
        (.array values, rest)
  | depth + 1, '\x7b' :: rest => braceTable? (value? depth) rest
  | _, cs => scalarValue? cs

/-- How deep values may nest. -/
def deepestNesting : Nat := 79

-- ======================================================================== lines

/-- What one line says, if anything, and the lines after it. A value may
take several lines. -/
def line? (cs : List Char) : Option (Option Statement × List Char) :=
  match skipSpace cs with
  | '[' :: '[' :: rest => do
      let (key, rest) ← key? rest
      match rest with
      | ']' :: ']' :: rest => return (some (.elementHeader key), ← lineEnd? rest)
      | _ => none
  | '[' :: rest => do
      let (key, rest) ← key? rest
      match rest with
      | ']' :: rest => return (some (.tableHeader key), ← lineEnd? rest)
      | _ => none
  | cs =>
      match lineEnd? cs with
      | some rest => some (none, rest)
      | none => do
          let ((key, value), rest) ← pair? (value? deepestNesting) cs
          return (some (.pair key value), ← lineEnd? rest)

/-- The statements of a text of at most `limit` lines. -/
def statementsUpTo? : Nat → List Char → Option (List Statement)
  | _, [] => some []
  | 0, _ => none
  | limit + 1, cs => do
      let (statement, rest) ← line? cs
      let others ← statementsUpTo? limit rest
      return statement.toList ++ others

/-- The text without a byte order mark in front. -/
def skipByteOrderMark : List Char → List Char
  | '\ufeff' :: rest => rest
  | cs => cs

/-- The top table of a document. -/
def parse? (text : String) : Option Entries := do
  let cs := skipByteOrderMark text.toList
  tableOf? (← statementsUpTo? (cs.length + 1) cs)

end Turnstile.Toml
