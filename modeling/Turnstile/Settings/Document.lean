/-
Settings from a TOML document.

Each group of settings is a table whose fields may be missing, or an
array that gives the fields in their order. Keys that name no field are
passed over. Values are read in the order of the document, and the first
that does not fit is the error: it has a cause of its own if it is a
duration that makes no sense, and otherwise none.

A group that is a date or time is a table without any field of ours.
-/
import Turnstile.Settings.Fault
import Turnstile.Toml.Document

namespace Turnstile.Settings

open Toml (Value Entries)

/-- What a value that does not fit reports. -/
abbrev Misfit := Option Fault

/-- A named part of a record and how a value changes it. -/
abbrev Field (σ : Type) := String × (Value → σ → Except Misfit σ)

-- ================================================================= single values

/-- A whole number below a bound. -/
def wholeNumber (bound : Nat) : Value → Except Misfit Nat
  | .integer n => if 0 ≤ n ∧ n < bound then .ok n.toNat else .error none
  | _ => .error none

/-- A truth value. -/
def truthValue : Value → Except Misfit Bool
  | .boolean b => .ok b
  | _ => .error none

/-- A number, whole or not. -/
def realNumber : Value → Except Misfit Binary64
  | .float x => .ok x
  | .integer n => .ok (.ofRat false n)
  | _ => .error none

/-- A text. -/
def text : Value → Except Misfit String
  | .text s => .ok s
  | _ => .error none

/-- A duration, written as text. -/
def duration (value : Value) : Except Misfit Duration := do
  let s ← text value
  (durationOf s).mapError some

/-- A list of texts. -/
def texts : Value → Except Misfit (List String)
  | .array values => values.mapM text
  | .tables (_ :: _) => .error none
  | .tables [] => .ok []
  | _ => .error none

-- ======================================================================= records

/-- Reads the entries of a table into a record. -/
def readEntries {σ : Type} (fields : List (Field σ)) (entries : Entries)
    (record : σ) : Except Misfit σ :=
  entries.foldlM (fun record entry =>
    match fields.lookup entry.1 with
    | some read => read entry.2 record
    | none => .ok record) record

/-- Reads values into the fields of a record, in their order. -/
def readInOrder {σ : Type} (fields : List (Field σ)) (values : List Value)
    (record : σ) : Except Misfit σ :=
  (fields.zip values).foldlM (fun record pair => pair.1.2 pair.2 record) record

/-- Reads a group of settings. -/
def readGroup {σ : Type} (fields : List (Field σ)) (record : σ) :
    Value → Except Misfit σ
  | .table _ entries => readEntries fields entries record
  | .array values => readInOrder fields values record
  | .tables elements => readInOrder fields (elements.map (.table .header)) record
  | .moment => .ok record
  | _ => .error none

-- ==================================================================== the fields

/-- The fields of the server. -/
def Server.fields : List (Field Server) :=
  [("port", fun v s => do
      let n ← wholeNumber 65536 v
      return { s with port := UInt16.ofNat n })]

/-- The fields of the limiter. -/
def RateLimit.fields : List (Field RateLimit) :=
  [("enabled", fun v s => do
      let b ← truthValue v
      return { s with enabled := b }),
   ("rps", fun v s => do
      let x ← realNumber v
      return { s with rps := x }),
   ("burst", fun v s => do
      let n ← wholeNumber 4294967296 v
      return { s with burst := UInt32.ofNat n }),
   ("eviction_interval", fun v s => do
      let d ← duration v
      return { s with evictionInterval := d })]

/-- The fields of the cross-origin rules. -/
def CrossOrigin.fields : List (Field CrossOrigin) :=
  [("allowed_origins", fun v s => do
      let origins ← texts v
      return { s with allowedOrigins := origins }),
   ("max_age_seconds", fun v s => do
      let n ← wholeNumber wordBound v
      return { s with maxAgeSeconds := UInt64.ofNat n })]

/-- The three groups. -/
def groups : List (Field Settings) :=
  [("server", fun v s => do
      let server ← readGroup Server.fields .default v
      return { s with server }),
   ("rate_limit", fun v s => do
      let rateLimit ← readGroup RateLimit.fields .default v
      return { s with rateLimit }),
   ("cors", fun v s => do
      let crossOrigin ← readGroup CrossOrigin.fields .default v
      return { s with crossOrigin })]

/-- The settings of a document's text; defaults for all it does not say. -/
def ofDocument (text : String) : Except Misfit Settings :=
  match Toml.parse? text with
  | none => .error none
  | some entries => readEntries groups entries default

end Turnstile.Settings
