import StructuredLog.Format.JsonText
import StructuredLog.Record

/-!
The JSON form of a record: one object on one line, its members the reserved names in their
order, the error only if there is one.
-/

namespace StructuredLog.JsonLine

open Text JsonText

def timestamp (t : Instant) : Text :=
  Instant.localDate 0 t ++ ascii "T" ++ Instant.localTime 0 t ++ ascii "."
    ++ Decimal.paddedInt 6 (Instant.microsecond t) ++ ascii "Z"

def errorMembers (e : ErrorInfo) : List Text :=
  [member (ascii "type") (string e.kind),
   member (ascii "message") (string e.message),
   member (ascii "frames") (array (e.frames.map string))]

def members (r : Record) : List Text :=
  [member (ascii "timestamp") (string (timestamp r.time)),
   member (ascii "level") (string r.severity.name),
   member (ascii "logger") (string r.logger),
   member (ascii "message") (string r.message),
   member (ascii "module") (string r.origin.module),
   member (ascii "function") (string r.origin.function),
   member (ascii "line") (Decimal.ofNat r.origin.line.toNat),
   member (ascii "context") (fields r.context),
   member (ascii "extra") (fields r.extra)]
  ++ match r.error with
    | none => []
    | some e => [member (ascii "error") (object (errorMembers e))]

def render (r : Record) : Text := object (members r)

end StructuredLog.JsonLine
