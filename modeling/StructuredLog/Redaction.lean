import StructuredLog.Fields

/-!
Redaction of sensitive fields. A field is sensitive when its name contains an entry of the
blocklist, whatever the case of its ASCII letters; its value is replaced by a sentinel text.
-/

namespace StructuredLog

structure Redaction where
  blocklist : List Text
  sentinel : Text
  deriving DecidableEq, Repr

namespace Redaction

def defaultBlocklist : List Text :=
  ["password", "token", "secret", "api_key", "authorization", "credential", "private_key", "ssn",
    "credit_card", "cvv", "pin", "session_id", "cookie", "csrf_token"].map Text.ascii

def defaultSentinel : Text := Text.ascii "***REDACTED***"

def extended (additional : List Text) (sentinel : Text) : Redaction :=
  ⟨defaultBlocklist ++ additional.filter (· ≠ []), sentinel⟩

def standard : Redaction := extended [] defaultSentinel

def isSensitive (r : Redaction) (key : Text) : Bool :=
  r.blocklist.any fun entry => Text.containsFolded key entry

def cover (r : Redaction) (key : Text) (v : Value) : Value :=
  if r.isSensitive key then .text r.sentinel else v

def redact (r : Redaction) (f : Fields) : Fields :=
  ⟨f.toList.map fun e => (e.1, r.cover e.1 e.2)⟩

def count (r : Redaction) (f : Fields) : Nat := f.toList.countP fun e => r.isSensitive e.1

end Redaction

end StructuredLog
