import StructuredLog.Record
import StructuredLog.Redaction

/-!
Filters stand between a logger and its handlers. Each keeps or vetoes a record, and may rewrite
it; a user's filter is any function of the record, and may raise. A pipeline of filters ends at
the first veto or raise. A filter also answers for a fingerprint, by which a registry knows it.
-/

namespace StructuredLog

/-- What a filter decides about a record, which it may have rewritten. -/
structure Verdict where
  kept : Bool
  record : Record
  deriving DecidableEq, Repr

inductive FilterFingerprint where
  | level (minimum : Severity)
  | sensitive (sentinel : Text) (blocklist : List Text)
  | object (identity : Nat)
  /-- A word that a user's class comes to in a way of its own. -/
  | own (word : UInt64)
  deriving DecidableEq, Repr

/-- What is known of a user's filter as an object. -/
structure FilterObject where
  identity : Nat
  /-- What it answers for a fingerprint, unless its class keeps the default. -/
  fingerprint : Option FilterFingerprint
  /-- Whether its class is derived from that of the redactions, so that it counts as one. -/
  redacts : Bool
  deriving DecidableEq, Repr

namespace FilterObject

def plain (identity : Nat) : FilterObject := ⟨identity, none, false⟩

instance : Coe Nat FilterObject := ⟨plain⟩

end FilterObject

inductive Filter where
  | level (minimum : Severity)
  | sensitive (r : Redaction)
  | custom (object : FilterObject) (apply : Record → Except Raised Verdict)

namespace Filter

def redactRecord (r : Redaction) (record : Record) : Record :=
  { record with context := r.redact record.context, extra := r.redact record.extra }

def apply : Filter → Record → Except Raised Verdict
  | level minimum, record => .ok ⟨decide (minimum ≤ record.severity), record⟩
  | sensitive r, record => .ok ⟨true, redactRecord r record⟩
  | custom _ apply, record => apply record

def isSensitive : Filter → Bool
  | level _ => false
  | sensitive _ => true
  | custom object _ => object.redacts

def fingerprint : Filter → FilterFingerprint
  | level minimum => .level minimum
  | sensitive r => .sensitive r.sentinel r.blocklist
  | custom object _ => object.fingerprint.getD (.object object.identity)

inductive Outcome where
  | delivered (record : Record)
  | vetoed
  | raised (r : Raised)
  deriving DecidableEq, Repr

def pipeline : List Filter → Record → Outcome
  | [], record => .delivered record
  | f :: rest, record =>
    match f.apply record with
    | .error r => .raised r
    | .ok v => if v.kept then pipeline rest v.record else .vetoed

end Filter

end StructuredLog
