import StructuredLog.Config

/-!
Fingerprints of configurations: canonical data that are equal exactly when two configurations
mean the same to a registry. Objects that cannot be compared count as the same if they are the
same object; factories if they are of one type. A user's filter may answer for itself.
-/

namespace StructuredLog

inductive OutputFingerprint where
  | stream (target : StandardTarget) (stream : Option Channel)
  | file (path : Text) (maxBytes : UInt64) (backups : UInt32)
  deriving DecidableEq, Repr

structure FormatFingerprint where
  format : BuiltinFormat
  formatter : Option Nat
  color : ColorMode
  deriving DecidableEq, Repr

inductive HandlerFingerprint where
  | custom (threshold : Severity) (factoryType : Option Nat)
  | builtin (kind : HandlerKind) (threshold : Severity) (format : FormatFingerprint)
      (output : OutputFingerprint)
  deriving DecidableEq, Repr

namespace HandlerSpec

def fingerprint (s : HandlerSpec) : HandlerFingerprint :=
  match s.kind with
  | .custom => .custom s.threshold (s.factory.map (·.typeTag))
  | .stream =>
    .builtin .stream s.threshold ⟨s.format, s.formatter.map (·.identity), s.color⟩
      (.stream s.target s.stream)
  | kind =>
    .builtin kind s.threshold ⟨s.format, s.formatter.map (·.identity), s.color⟩
      (.file s.path s.maxBytes s.backups)

end HandlerSpec

structure Fingerprint where
  name : Text
  level : Severity
  handlers : List HandlerFingerprint
  filters : List (Option FilterFingerprint)
  deriving DecidableEq, Repr

namespace LoggerConfig

def fingerprint (c : LoggerConfig) : Fingerprint where
  name := c.name
  level := c.level
  handlers := c.handlers.map (·.fingerprint)
  filters := c.filters.map (·.map Filter.fingerprint)

end LoggerConfig

end StructuredLog
