import StructuredLog.Text.Basic

/-!
Severities of log entries and the deployment environments that select a preset. Both are ranks
with names: the ranks of the listed names are meaningful, and any other rank prints as unknown.
-/

namespace StructuredLog

structure Severity where
  rank : UInt64
  deriving DecidableEq, Repr

namespace Severity

def unset : Severity := ⟨0⟩

def debug : Severity := ⟨1⟩

def info : Severity := ⟨2⟩

def warning : Severity := ⟨3⟩

def error : Severity := ⟨4⟩

def critical : Severity := ⟨5⟩

def sentinel : Severity := ⟨6⟩

instance : LE Severity := ⟨fun a b => a.rank ≤ b.rank⟩

instance (a b : Severity) : Decidable (a ≤ b) := inferInstanceAs (Decidable (a.rank ≤ b.rank))

instance : LT Severity := ⟨fun a b => a.rank < b.rank⟩

instance (a b : Severity) : Decidable (a < b) := inferInstanceAs (Decidable (a.rank < b.rank))

def names : List Text := ["NONE", "DEBUG", "INFO", "WARNING", "ERROR", "CRITICAL"].map Text.ascii

def name (s : Severity) : Text := names[s.rank.toNat]?.getD (Text.ascii "UNKNOWN")

end Severity

structure Environment where
  rank : UInt64
  deriving DecidableEq, Repr

namespace Environment

def development : Environment := ⟨0⟩

def testing : Environment := ⟨1⟩

def staging : Environment := ⟨2⟩

def production : Environment := ⟨3⟩

def sentinel : Environment := ⟨4⟩

def names : List Text := ["development", "testing", "staging", "production"].map Text.ascii

def name (e : Environment) : Text := names[e.rank.toNat]?.getD (Text.ascii "unknown")

end Environment

end StructuredLog
