import StructuredLog.Number.Decimal

/-!
What can go wrong while a logger is configured, and objects raised by user code. A fault names
its cause by a code and says in its context where it arose. Anything raised is either a fault, an
exception that describes itself, or a foreign object of which nothing is known but that it was
raised.
-/

namespace StructuredLog

structure Fault where
  code : Int
  context : Text
  deriving DecidableEq, Repr

namespace Fault

def unknownEnvironment (context : Text) : Fault := ⟨1, context⟩

def unwritablePath (context : Text) : Fault := ⟨2, context⟩

def invalidHandler (context : Text) : Fault := ⟨3, context⟩

def nullFilter (context : Text) : Fault := ⟨4, context⟩

def category : Text := Text.ascii "quire-log"

def codeMessage (code : Int) : Text :=
  Text.ascii <| match code with
    | 1 => "Environment name is not one of development, testing, staging, production."
    | 2 => "Log file (or its parent directory) could not be created or opened for appending."
    | 3 => "Handler spec is inconsistent (file handler without a path, custom handler without a usable factory)."
    | 4 => "Logger config lists a null filter."
    | _ => "UNKNOWN-quire-log-error"

def message (f : Fault) : Text :=
  if f.code = 0 then f.context
  else
    let coded := codeMessage f.code ++ Text.ascii " [" ++ category ++ Text.ascii ":"
      ++ Decimal.ofInt f.code ++ Text.ascii "]"
    if f.context = [] then coded else f.context ++ Text.ascii ": " ++ coded

end Fault

inductive Raised where
  | fault (f : Fault)
  | described (kind message : Text)
  | foreign (kind content : Text)
  deriving DecidableEq, Repr

namespace Raised

/-- How the object describes itself, if it does; a description ends at the first NUL. -/
def description? : Raised → Option Text
  | fault f => some (Text.untilNul f.message)
  | described _ message => some (Text.untilNul message)
  | foreign _ _ => none

def kindName : Raised → Text
  | fault _ => Text.ascii "quire::error::Runtime_error"
  | described kind _ => kind
  | foreign _ _ => Text.ascii "unknown"

def reason (r : Raised) : Text := r.description?.getD (Text.ascii "unknown exception")

end Raised

end StructuredLog
