import StructuredLog.Fault
import StructuredLog.Fields
import StructuredLog.Severity
import StructuredLog.SourcePath
import StructuredLog.Time.Instant

/-!
Log records: what one log call hands to filters and handlers. A record owns the names of its own
members, so fields with a reserved name are dropped when it is made.
-/

namespace StructuredLog

structure Origin where
  module : Text
  function : Text
  line : UInt32
  deriving DecidableEq, Repr

namespace Origin

def unknown : Origin := ⟨[], [], 0⟩

def ofFile (path function : Text) (line : UInt32) : Origin := ⟨SourcePath.stem path, function, line⟩

end Origin

structure ErrorInfo where
  kind : Text
  message : Text
  frames : List Text
  deriving DecidableEq, Repr

namespace ErrorInfo

def capture (r : Raised) (frames : optParam (List Text) []) : ErrorInfo :=
  ⟨r.kindName, r.description?.getD [], frames⟩

end ErrorInfo

structure Record where
  time : Instant
  severity : Severity
  logger : Text
  message : Text
  origin : Origin
  context : Fields
  extra : Fields
  error : Option ErrorInfo
  deriving DecidableEq, Repr

namespace Record

def reservedNames : List Text :=
  ["timestamp", "level", "logger", "message", "module", "function", "line", "context", "extra",
    "error"].map Text.ascii

def isReserved (name : Text) : Bool := reservedNames.contains name

/-- A record made now; `handling` is the raised object being handled, if any, and `frames` is what
the stack looks like. -/
def make (time : Instant) (severity : Severity) (logger message : Text) (origin : Origin)
    (context extra : Fields) (capture : Bool) (handling : Option Raised)
    (frames : optParam (List Text) []) : Record where
  time := time
  severity := severity
  logger := logger
  message := message
  origin := origin
  context := context.eraseIf isReserved
  extra := extra.eraseIf isReserved
  error := if capture then handling.map (ErrorInfo.capture · frames) else none

end Record

end StructuredLog
