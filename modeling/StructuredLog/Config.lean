import StructuredLog.Filter
import StructuredLog.Handler
import StructuredLog.Vocabulary

/-!
Logger configurations: a name, a level, and descriptions of the handlers and filters to build.
A handler spec is a form of which each kind uses some members only; building it checks those in a
fixed order and says what is wrong with the first that does not do.
-/

namespace StructuredLog

inductive HandlerKind where
  | stream
  | file
  | sizeRotating
  | dailyRotating
  | custom
  | unlisted (code : Int)
  deriving DecidableEq, Repr

inductive BuiltinFormat where
  | json
  | console
  deriving DecidableEq, Repr

inductive ColorMode where
  | auto
  | always
  | never
  deriving DecidableEq, Repr

inductive StandardTarget where
  | output
  | error
  deriving DecidableEq, Repr

namespace StandardTarget

def channel : StandardTarget → Channel
  | output => .standardOutput
  | error => .standardError

end StandardTarget

/-- A formatter object; the identity tells objects apart. -/
structure SharedFormatter where
  identity : Nat
  formatter : Formatter

/-- Makes a custom handler. It may return none, or raise. -/
structure Factory where
  /-- Factories of one type cannot be told apart. -/
  typeTag : Nat
  make : Except Raised (Option Handler)

structure HandlerSpec where
  kind : HandlerKind
  threshold : Severity
  format : BuiltinFormat
  formatter : Option SharedFormatter
  color : ColorMode
  target : StandardTarget
  /-- Used instead of a standard stream, if present. -/
  stream : Option Channel
  path : Text
  maxBytes : UInt64
  backups : UInt32
  factory : Option Factory

namespace HandlerSpec

def basic : HandlerSpec where
  kind := .stream
  threshold := .unset
  format := .console
  formatter := none
  color := .auto
  target := .output
  stream := none
  path := []
  maxBytes := 0
  backups := 0
  factory := none

def onStream (threshold : Severity) (format : BuiltinFormat) (color : ColorMode)
    (target : StandardTarget) : HandlerSpec :=
  { basic with threshold := threshold, format := format, color := color, target := target }

def sizeRotatingFile (threshold : Severity) (format : BuiltinFormat) (path : Text)
    (maxBytes : UInt64) (backups : UInt32) : HandlerSpec :=
  { basic with
    kind := .sizeRotating, threshold := threshold, format := format, path := path
    maxBytes := maxBytes, backups := backups }

def dailyRotatingFile (threshold : Severity) (format : BuiltinFormat) (path : Text)
    (backups : UInt32) : HandlerSpec :=
  { basic with
    kind := .dailyRotating, threshold := threshold, format := format, path := path
    backups := backups }

def ofFactory (factory : Option Factory) : HandlerSpec :=
  { basic with kind := .custom, factory := factory }

def channel (s : HandlerSpec) : Channel := s.stream.getD s.target.channel

def usesColors (s : HandlerSpec) (host : Host) : Bool :=
  match s.color with
  | .always => true
  | .auto => s.kind = .stream && host.isTerminal s.channel
  | .never => false

def chosenFormatter (s : HandlerSpec) (host : Host) : Formatter :=
  match s.formatter with
  | some f => f.formatter
  | none =>
    match s.format with
    | .json => .json
    | .console => .console (s.usesColors host)

/-- The rotation of each kind of file handler; none for other kinds. -/
def schedule? (s : HandlerSpec) : Option LogFile.Schedule :=
  match s.kind with
  | .file => some .never
  | .sizeRotating => some (.bySize s.maxBytes.toNat s.backups.toNat)
  | .dailyRotating => some (.daily s.backups.toNat .wall)
  | _ => none

def buildFile (threshold : Severity) (formatter : Formatter) (path : Text)
    (schedule : LogFile.Schedule) (fallback : Channel) (host : Host) :
    Except Raised Handler × Host :=
  match LogFile.create host.clock path schedule host.files with
  | (.error e, files) =>
    (.error (.fault (.unwritablePath (path ++ Text.ascii " (" ++ e.message ++ Text.ascii ")"))),
      { host with files := files })
  | (.ok log, files) =>
    (.ok ⟨threshold, formatter, fallback, .file log⟩, { host with files := files })

def invalid (reason : String) : Raised := .fault (.invalidHandler (Text.ascii reason))

def build (s : HandlerSpec) (fallback : Channel) (host : Host) : Except Raised Handler × Host :=
  match s.kind with
  | .custom =>
    match s.factory with
    | none => (.error (invalid "custom handler without factory"), host)
    | some factory =>
      match factory.make with
      | .error r => (.error r, host)
      | .ok none => (.error (invalid "custom handler factory returned null"), host)
      | .ok (some h) => (.ok h, host)
  | .stream => (.ok ⟨s.threshold, s.chosenFormatter host, fallback, .stream s.channel⟩, host)
  | _ =>
    if s.path = [] then (.error (invalid "file handler without path"), host)
    else match s.schedule? with
      | none => (.error (invalid "unknown handler kind"), host)
      | some schedule =>
        buildFile s.threshold (s.chosenFormatter host) s.path schedule fallback host

def buildAll (fallback : Channel) : List HandlerSpec → Host → Except Raised (List Handler) × Host
  | [], host => (.ok [], host)
  | s :: rest, host =>
    match s.build fallback host with
    | (.error r, host) => (.error r, host)
    | (.ok h, host) =>
      match buildAll fallback rest host with
      | (.error r, host) => (.error r, host)
      | (.ok hs, host) => (.ok (h :: hs), host)

end HandlerSpec

structure LoggerConfig where
  name : Text
  level : Severity
  environment : Environment
  handlers : List HandlerSpec
  filters : List (Option Filter)

namespace LoggerConfig

def basic : LoggerConfig := ⟨[], .info, .development, [], []⟩

def stagingMaxBytes : UInt64 := 10485760

def stagingBackups : UInt32 := 5

def productionBackupDays : UInt32 := 30

def presetPath (name logDir : Text) : Text := FilePath.join logDir (name ++ Text.ascii ".log")

def presetHandlers (environment : Environment) (path : Text) : Severity × List HandlerSpec :=
  if environment = .development then
    (.debug, [.onStream .debug .console .auto .output])
  else if environment = .testing then
    (.warning, [.onStream .warning .console .never .output])
  else if environment = .staging then
    (.info, [.onStream .info .json .auto .output,
      .sizeRotatingFile .info .json path stagingMaxBytes stagingBackups])
  else if environment = .production then
    (.info, [.onStream .warning .json .auto .output,
      .dailyRotatingFile .info .json path productionBackupDays])
  else (.info, [])

def preset (name : Text) (environment : Environment) (logDir : Text) : Except Raised LoggerConfig :=
  if environment = .sentinel then
    .error (.fault (.unknownEnvironment (Text.ascii "(sentinel)")))
  else
    let (level, handlers) := presetHandlers environment (presetPath name logDir)
    .ok ⟨name, level, environment, handlers,
      [some (.level level), some (.sensitive .standard)]⟩

def presetNamed (name environment logDir : Text) : Except Raised LoggerConfig :=
  match Environment.parse? environment with
  | none => .error (.fault (.unknownEnvironment environment))
  | some e => preset name e logDir

end LoggerConfig

structure Settings where
  environment : Environment
  logDir : Text
  deriving DecidableEq, Repr

namespace Settings

def environmentVariable : Text := Text.ascii "ENVIRONMENT"

def logDirVariable : Text := Text.ascii "LOG_DIR"

def defaultLogDir : Text := Text.ascii "logs"

def fromHost (host : Host) : Except Raised Settings :=
  let environment := host.variableValue environmentVariable
  let logDir := host.variableValue logDirVariable
  let logDir := if logDir = [] then defaultLogDir else logDir
  if environment = [] then .ok ⟨.development, logDir⟩
  else match Environment.parse? environment with
    | none =>
      .error (.fault (.unknownEnvironment (environmentVariable ++ Text.ascii "=" ++ environment)))
    | some e => .ok ⟨e, logDir⟩

end Settings

end StructuredLog
