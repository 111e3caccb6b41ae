import StructuredLog.Config
import StructuredLog.Context

/-!
Loggers. A logger makes a record of each call that its level admits, sends it through its
filters, and hands what is left to its handlers. A redaction filter is added at the end unless
one is configured. A call never raises: an entry whose filter raised is dropped with a report.
-/

namespace StructuredLog

structure Logger where
  config : LoggerConfig
  filters : List Filter
  handlers : List Handler
  fallback : Channel

structure LogCall where
  severity : Severity
  message : Text
  extra : Fields
  capture : Bool
  origin : Origin
  deriving DecidableEq, Repr

inductive LogMethod where
  | debug
  | info
  | warning
  | error
  | critical
  | exception
  deriving DecidableEq, Repr

namespace LogMethod

def severity : LogMethod → Severity
  | debug => .debug
  | info => .info
  | warning => .warning
  | error => .error
  | critical => .critical
  | exception => .error

def captures : LogMethod → Bool
  | critical => true
  | exception => true
  | _ => false

def call (m : LogMethod) (message : Text) (extra : Fields) (capture : Option Bool)
    (origin : Origin) : LogCall :=
  ⟨m.severity, message, extra, capture.getD m.captures, origin⟩

end LogMethod

structure CallSetting where
  context : Fields
  handling : Option Raised
  frames : List Text
  deriving DecidableEq, Repr

namespace Logger

open Text

/-- The filters in effect for a list of filters without an absent one. -/
def withRedaction (filters : List Filter) : List Filter :=
  if filters.any Filter.isSensitive then filters else filters ++ [.sensitive .standard]

def presentFilters? : List (Option Filter) → Option (List Filter)
  | [] => some []
  | none :: _ => none
  | some f :: rest => (presentFilters? rest).map (f :: ·)

def build (config : LoggerConfig) (fallback : Channel) (host : Host) :
    Except Raised Logger × Host :=
  match presentFilters? config.filters with
  | none => (.error (.fault (.nullFilter config.name)), host)
  | some filters =>
    match HandlerSpec.buildAll fallback config.handlers host with
    | (.error r, host) => (.error r, host)
    | (.ok handlers, host) => (.ok ⟨config, withRedaction filters, handlers, fallback⟩, host)

def name (l : Logger) : Text := l.config.name

def level (l : Logger) : Severity := l.config.level

def admits (l : Logger) (s : Severity) : Bool :=
  decide (s ≠ .unset) && decide (s < .sentinel) && decide (l.level ≤ s)

def droppedLine (l : Logger) (message : Text) (r : Raised) : Text :=
  ascii "quire: Logger [" ++ l.name ++ ascii "]: Dropped entry [" ++ message ++ ascii "] ("
    ++ r.reason ++ ascii ").\n"

def recordOf (l : Logger) (call : LogCall) (setting : CallSetting) (host : Host) : Record :=
  Record.make host.clock.wall call.severity l.name call.message call.origin setting.context
    call.extra call.capture setting.handling setting.frames

def log (l : Logger) (call : LogCall) (setting : CallSetting) (host : Host) : Logger × Host :=
  if l.admits call.severity then
    match Filter.pipeline l.filters (l.recordOf call setting host) with
    | .vetoed => (l, host)
    | .raised r => (l, host.write l.fallback (l.droppedLine call.message r))
    | .delivered record =>
      let (handlers, host) := Handler.handleAll record l.handlers host
      ({ l with handlers := handlers }, host)
  else (l, host)

def flush (l : Logger) (host : Host) : Host :=
  l.handlers.foldl (fun host h => h.flush host) host

/-- What is left of the host once the logger is gone: it flushes its handlers, and they go. -/
def close (l : Logger) (host : Host) : Host :=
  l.handlers.foldl (fun host h => h.close host) (l.flush host)

end Logger

end StructuredLog
