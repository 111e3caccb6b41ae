import StructuredLog.Measurement
import StructuredLog.Registry

/-!
Scenarios: programs that use loggers, registries, handlers and context frames while their
surroundings change. A scenario is a list of steps, some of which run steps of their own.
-/

namespace StructuredLog.Scenario

inductive FileAction where
  | write (path : Text) (content : Array UInt8) (append : Bool)
  | makeDirectories (path : Text)
  | removeAll (path : Text)
  | rename (source target : Text)
  | setModified (path : Text) (second : Int)

namespace FileAction

def run (now : Int) (files : FileSystem) : FileAction → FileSystem
  | write path content append => files.writeFile path content append now
  | makeDirectories path => (files.makeDirectories path).2
  | removeAll path => files.removeAll path
  | rename source target => (files.rename source target).toOption.getD files
  | setModified path second => files.setModified path second

end FileAction

inductive Ending where
  | returns (answer : Option Int)
  | raises (r : Raised)
  deriving DecidableEq, Repr

def Ending.raised? : Ending → Option Raised
  | returns _ => none
  | raises r => some r

inductive BackupLabel where
  | number (n : Nat)
  | date (d : Text)
  deriving DecidableEq, Repr

structure DirectCall where
  logger : Text
  context : Fields
  call : LogCall
  deriving DecidableEq, Repr

inductive Step where
  -- the current logger
  | log (call : LogCall)
  | logAtSite (present : Bool) (call : LogCall)
  | flush
  | admits (s : Severity)
  | describe
  | measure (operation : Text) (extra : Fields) (work : List Step) (ending : Ending)
  -- control
  | attempt (work : List Step) (ending : Option Raised) (recovery : List Step)
  | thread (work : List Step)
  /-- Whatever leaves the inner step ends the list of steps around it too. -/
  | propagating (step : Step)
  | leave (ending : Ending)
  -- loggers
  | build (config : LoggerConfig)
  | get (name : Text)
  | getConfigured (name : Text) (config : LoggerConfig)
  | getPreset (name : Text) (environment : Environment) (logDir : Text)
  | clear
  | size
  | contains (name : Text)
  | use (id : LoggerId)
  -- handlers on their own
  | openHandler (spec : HandlerSpec)
  | openMonotonicDaily (path : Text) (backups : Nat) (threshold : Severity) (formatter : Formatter)
  | handle (handler : Nat) (call : DirectCall)
  | flushHandler (handler : Nat)
  | close (handler : Nat)
  | accepts (handler : Nat) (s : Severity)
  | inspect (handler : Nat)
  | backupPath (handler : Nat) (label : BackupLabel)
  -- context frames
  | enter (fields : Fields)
  | exit (token : FrameToken)
  | merged
  | depth
  /-- Enters a frame around the work. A frame that is handed over belongs to an inner scope and
  has been left by the time the step answers. -/
  | scope (fields : Fields) (handedOver : Bool) (work : List Step)
  | openScope (id : Int) (fields : Fields)
  | closeScope (id : Int)
  -- surroundings
  | setTime (t : Instant)
  | advance (n : Int)
  | setVariable (name : Text) (val : Option Text)
  | setRefuses (sink : Text) (refuses : Bool)
  | spoil (c : Channel)
  | files (action : FileAction)
  /-- Not a step at all: a scenario that comes to it cannot be run. -/
  | unusable

namespace Step

instance : Inhabited Step := ⟨unusable⟩

def propagates : Step → Bool
  | propagating _ => true
  | leave _ => true
  | _ => false

def passesOn (step : Step) : Option Ending → Option Ending
  | some (.raises r) => if step.propagates then some (.raises r) else none
  | ending => ending

end Step

end StructuredLog.Scenario
