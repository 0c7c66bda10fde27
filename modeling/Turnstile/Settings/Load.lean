/-
Loading the settings.

Three layers, each on top of the one before: the defaults, a document if
one is named, and the environment. The result is checked before it is
used. What was reported about the environment is reported even if the
check fails.
-/
import Turnstile.Settings.Document
import Turnstile.Settings.Override

namespace Turnstile.Settings

/-- A named document, and its bytes if it can be read. -/
structure Source where
  path : String
  bytes? : Option ByteArray

/-- Why settings could not be loaded. -/
inductive LoadError where
  /-- The document cannot be read, or is not text. -/
  | unreadable (path : String)
  /-- The document is not TOML, or a value does not fit. -/
  | unparsable (path : String) (cause : Misfit)
  /-- The settings cannot be used. -/
  | invalid (fault : Fault)
deriving DecidableEq

namespace LoadError

/-- The text of an error. -/
def message : LoadError → String
  | .unreadable path => "Failed to read config file " ++ path
  | .unparsable path _ => "Failed to parse config file " ++ path
  | .invalid _ => "Invalid rate limiter configuration"

/-- The fault behind an error, if one is known. -/
def cause? : LoadError → Option Fault
  | .unreadable _ => none
  | .unparsable _ cause => cause
  | .invalid fault => some fault

end LoadError

/-- The settings of a document. -/
def ofSource (source : Source) : Except LoadError Settings :=
  match source.bytes?.bind String.fromUTF8? with
  | none => .error (.unreadable source.path)
  | some text => (ofDocument text).mapError (.unparsable source.path)

/-- The settings below the environment. -/
def base (source? : Option Source) : Except LoadError Settings :=
  match source? with
  | none => .ok default
  | some source => ofSource source

/-- The settings, or the fault that makes them useless. -/
def validated (settings : Settings) : Except LoadError Settings :=
  match settings.rateLimit.fault? with
  | none => .ok settings
  | some fault => .error (.invalid fault)

/-- Loads the settings from a document, if one is named, and from an
environment, whose values count only if they are text. -/
def load (source? : Option Source) (environment : String → Option ByteArray) :
    Except LoadError Settings × List Event :=
  match base source? with
  | .error e => (.error e, [])
  | .ok settings =>
      let (changed, events) :=
        overridden (fun name => (environment name).bind String.fromUTF8?) settings
      (validated changed, events)

end Turnstile.Settings
