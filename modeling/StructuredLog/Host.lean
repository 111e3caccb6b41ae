import StructuredLog.Files.FileSystem
import StructuredLog.Streams
import StructuredLog.Time.Instant

/-!
The host that loggers run on: output streams, files, clocks, environment variables, and what the
standard streams are connected to.
-/

namespace StructuredLog

structure Host where
  streams : Streams
  files : FileSystem
  clock : Clock
  envVars : List (Text × Text)
  outputIsTerminal : Bool
  errorIsTerminal : Bool

namespace Host

/-- Whether a stream shows what it is given on a terminal. -/
def isTerminal (h : Host) : Channel → Bool
  | .standardOutput => h.outputIsTerminal
  | .standardError => h.errorIsTerminal
  | .standardLog => h.errorIsTerminal
  | .named _ => false

def devices : List (Location × Node) :=
  let dev := Location.root ++ [Text.ascii "dev"]
  [(dev, .directory), (dev ++ [Text.ascii "null"], .special .discarding),
    (dev ++ [Text.ascii "full"], .special .refusing)]

def fresh (clock : Clock) : Host :=
  ⟨Streams.empty, { FileSystem.empty with entries := devices }, clock, [], false, false⟩

def variableValue (h : Host) (name : Text) : Text := (Assoc.get? name h.envVars).getD []

def setVariable (h : Host) (name : Text) : Option Text → Host
  | some val => { h with envVars := Assoc.set name (Text.untilNul val) h.envVars }
  | none => { h with envVars := Assoc.erase name h.envVars }

def write (h : Host) (c : Channel) (t : Text) : Host := { h with streams := h.streams.write c t }

end Host

end StructuredLog
