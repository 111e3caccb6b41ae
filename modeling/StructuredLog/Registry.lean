import StructuredLog.Fingerprint
import StructuredLog.Logger

/-!
The registry of loggers by name. Loggers live in a roster that only grows, so a logger that the
registry has forgotten can still be used by whoever holds its number. A logger is built again
when it is asked for with a configuration of another fingerprint.
-/

namespace StructuredLog

abbrev LoggerId := Nat

structure Roster where
  loggers : List Logger
  /-- The fingerprints of their configurations, each taken when the logger was built. -/
  fingerprints : List Fingerprint
  host : Host

namespace Roster

def add (r : Roster) (l : Logger) : LoggerId × Roster :=
  (r.loggers.length,
    { r with
      loggers := r.loggers ++ [l]
      fingerprints := r.fingerprints ++ [l.config.fingerprint] })

def build (r : Roster) (config : LoggerConfig) (fallback : Channel) :
    Except Raised LoggerId × Roster :=
  match Logger.build config fallback r.host with
  | (.error e, host) => (.error e, { r with host := host })
  | (.ok l, host) =>
    let (id, r) := Roster.add { r with host := host } l
    (.ok id, r)

def fingerprintOf (r : Roster) (id : LoggerId) : Option Fingerprint := r.fingerprints[id]?

def log (r : Roster) (id : LoggerId) (call : LogCall) (setting : CallSetting) : Option Roster := do
  let l ← r.loggers[id]?
  let (l, host) := l.log call setting r.host
  some { r with loggers := r.loggers.set id l, host := host }

end Roster

structure Registry where
  /-- The logger of each known name; a name may be known without one. -/
  entries : List (Text × Option LoggerId)
  fallback : Channel
  deriving DecidableEq, Repr

structure Catalog where
  registry : Registry
  roster : Roster

namespace Catalog

def entry (c : Catalog) (name : Text) : Option (Option LoggerId) :=
  Assoc.get? name c.registry.entries

def contains (c : Catalog) (name : Text) : Bool := (c.entry name).isSome

def size (c : Catalog) : Nat := c.registry.entries.length

def setEntry (c : Catalog) (name : Text) (id : Option LoggerId) : Catalog :=
  { c with registry := { c.registry with entries := Assoc.set name id c.registry.entries } }

def eraseEntry (c : Catalog) (name : Text) : Catalog :=
  { c with registry := { c.registry with entries := Assoc.erase name c.registry.entries } }

def clear (c : Catalog) : Catalog := { c with registry := { c.registry with entries := [] } }

def build (c : Catalog) (config : LoggerConfig) : Except Raised LoggerId × Catalog :=
  let (result, roster) := c.roster.build config c.registry.fallback
  (result, { c with roster := roster })

def get (c : Catalog) (name : Text) : Except Raised (Option LoggerId) × Catalog :=
  match c.entry name with
  | some id => (.ok id, c)
  | none =>
    match Settings.fromHost c.roster.host with
    | .error r => (.error r, c)
    | .ok settings =>
      match LoggerConfig.preset name settings.environment settings.logDir with
      | .error r => (.error r, c)
      | .ok config =>
        match c.build config with
        | (.error r, c) => (.error r, c)
        | (.ok id, c) => (.ok (some id), c.setEntry name (some id))

def isCurrent (c : Catalog) (fingerprint : Fingerprint) : Option LoggerId → Bool
  | none => false
  | some id => c.roster.fingerprintOf id == some fingerprint

/-- What a failed build leaves of the entry: a described failure removes one without a logger. -/
def afterFailure (c : Catalog) (name : Text) (old : Option LoggerId) (r : Raised) : Catalog :=
  if old.isNone && r.description?.isSome then c.eraseEntry name else c

def getConfigured (c : Catalog) (name : Text) (config : LoggerConfig) :
    Except Raised (Option LoggerId) × Catalog :=
  let config := { config with name := name }
  let old := (c.entry name).getD none
  let c := c.setEntry name old
  if c.isCurrent config.fingerprint old then (.ok old, c)
  else match c.build config with
    | (.error r, c) => (.error r, c.afterFailure name old r)
    | (.ok id, c) => (.ok (some id), c.setEntry name (some id))

def getPreset (c : Catalog) (name : Text) (environment : Environment) (logDir : Text) :
    Except Raised (Option LoggerId) × Catalog :=
  match LoggerConfig.preset name environment logDir with
  | .error r => (.error r, c)
  | .ok config => c.getConfigured name config

end Catalog

end StructuredLog
