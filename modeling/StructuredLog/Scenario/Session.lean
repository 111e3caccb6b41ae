import StructuredLog.Scenario.Report

/-!
The state of a running scenario: the registry with all loggers, the context frames, the handlers
and scopes held open, and what has been observed so far.
-/

namespace StructuredLog.Scenario

/-- What a call to a logger is for: a message of the program, or the start or the end of an
operation that is measured. -/
inductive Purpose where
  | message
  | starting (operation : Text)
  | completed (operation : Text)
  | failed (operation : Text)
  deriving DecidableEq, Repr

structure Offer where
  logger : LoggerId
  purpose : Purpose
  call : LogCall
  setting : CallSetting
  deriving DecidableEq, Repr

structure Session where
  catalog : Catalog
  context : ContextStore
  fallback : Channel
  current : Option LoggerId
  handlers : List (Option Handler)
  scopes : List (Int × FrameToken)
  nextThread : ThreadId
  /-- What the stack looks like at the call with this number. -/
  stackAt : Nat → List Text
  /-- All calls that were offered to loggers, in order. -/
  offers : List Offer
  seenSinks : List (Text × Nat)
  seenTree : TreeView

structure Setting where
  thread : ThreadId
  handling : Option Raised
  deriving DecidableEq, Repr

namespace Session

def host (s : Session) : Host := s.catalog.roster.host

def setHost (s : Session) (h : Host) : Session :=
  { s with catalog := { s.catalog with roster := { s.catalog.roster with host := h } } }

def onHost (s : Session) (change : Host → Host) : Session := s.setHost (change s.host)

def treeView (s : Session) : TreeView :=
  s.host.files.tree.map fun e => (e.1, EntryView.ofContent e.2)

def seen (s : Session) (sink : Text) : Nat := (Assoc.get? sink s.seenSinks).getD 0

def newOctets (s : Session) : List (Text × Text) :=
  (s.host.streams.sinks.filterMap fun e =>
    match e.2.content.drop (s.seen e.1) with
    | [] => none
    | octets => some (e.1, octets)).mergeSort fun a b => Text.le a.1 b.1

def observe (s : Session) : Delta × Session :=
  let tree := s.treeView
  (⟨s.newOctets, if tree = s.seenTree then none else some tree⟩,
    { s with
      seenSinks := s.host.streams.sinks.map fun e => (e.1, e.2.content.length)
      seenTree := tree })

def start (host : Host) (registryFallback fallback : Channel) : Session :=
  let s : Session :=
    { catalog := ⟨⟨[], registryFallback⟩, ⟨[], [], host⟩⟩
      context := .empty
      fallback := fallback
      current := none
      handlers := []
      scopes := []
      nextThread := 1
      stackAt := fun _ => []
      offers := []
      seenSinks := []
      seenTree := [] }
  s.observe.2

def logger? (s : Session) : Option (LoggerId × Logger) := do
  let id ← s.current
  let l ← s.catalog.roster.loggers[id]?
  some (id, l)

def logOn (id : LoggerId) (here : Setting) (purpose : Purpose) (call : LogCall) (s : Session) :
    Option Session := do
  let setting : CallSetting :=
    ⟨s.context.merged here.thread, here.handling, s.stackAt s.offers.length⟩
  let roster ← s.catalog.roster.log id call setting
  some { s with
    catalog := { s.catalog with roster := roster }
    offers := s.offers ++ [⟨id, purpose, call, setting⟩] }

def log (here : Setting) (call : LogCall) (s : Session) : Option Session := do
  s.logOn (← s.current) here .message call

def handler? (s : Session) (n : Nat) : Option Handler := s.handlers[n]?.getD none

def putHandler (s : Session) (n : Nat) (h : Option Handler) : Session :=
  { s with handlers := s.handlers.set n h }

def keepHandler (s : Session) : Except Raised Handler × Host → Except Raised Int × Session
  | (.ok h, host) =>
    (.ok s.handlers.length, { s.setHost host with handlers := s.handlers ++ [some h] })
  | (.error r, host) => (.error r, s.setHost host)

def adopt (s : Session) :
    Except Raised (Option LoggerId) × Catalog → Except Raised (Option LoggerId) × Session
  | (.ok id, c) => (.ok id, { s with catalog := c, current := id })
  | (.error r, c) => (.error r, { s with catalog := c })

def build (s : Session) (config : LoggerConfig) : Except Raised (Option LoggerId) × Session :=
  match s.catalog.roster.build config s.fallback with
  | (.ok id, roster) => s.adopt (.ok (some id), { s.catalog with roster := roster })
  | (.error r, roster) => s.adopt (.error r, { s.catalog with roster := roster })

def describe (l : Logger) : LoggerInfo where
  name := l.name
  level := l.level
  handlers := l.handlers.map fun h => (h.description, h.threshold)
  filters := l.filters
  configuredFilters := l.config.filters.length

def inspect (h : Handler) : HandlerInfo where
  description := h.description
  threshold := h.threshold
  path := match h.output with
    | .file log => some log.path
    | _ => none
  colors := h.formatter.colors?

def backupPath? (h : Handler) (label : BackupLabel) : Option Text :=
  match h.output with
  | .file log =>
    match log.rotation, label with
    | .bySize _ _, .number n => some (LogFile.Work.numberedBackup log.path n)
    | .daily _ _ _, .date d => some (LogFile.Work.datedBackup log.path d)
    | _, _ => none
  | _ => none

def enter (s : Session) (thread : ThreadId) (fields : Fields) : FrameToken × Session :=
  let (token, context) := s.context.enter thread fields
  (token, { s with context := context })

def exit (s : Session) (thread : ThreadId) (token : FrameToken) : Session :=
  { s with context := s.context.exit thread token }

def leaveScopes (s : Session) (thread : ThreadId) : Session :=
  let ordered := s.scopes.mergeSort fun a b => decide (a.1 ≤ b.1)
  { ordered.foldl (fun s e => s.exit thread e.2) s with scopes := [] }

def dropHandler (s : Session) (n : Nat) (h : Handler) : Session :=
  (s.putHandler n none).onHost h.close

def finish (s : Session) : Session :=
  let s := s.leaveScopes 0
  let s := { s with catalog := s.catalog.clear }
  let s := s.onHost fun host => s.catalog.roster.loggers.foldl (fun host l => l.close host) host
  s.onHost fun host => s.handlers.foldl (fun host h => h.elim host fun h => h.close host) host

end Session

end StructuredLog.Scenario
