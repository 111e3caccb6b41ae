import StructuredLog.Files.LogFile
import StructuredLog.Formatter
import StructuredLog.Host

/-!
Handlers deliver records: each formats a record, adds a line end, and writes the entry to its
output. Nothing that goes wrong on the way leaves the handler. An entry that could not be
formatted is dropped with a report, and one that could not be written is reported and copied to
the fallback stream.
-/

namespace StructuredLog

inductive Response where
  | done
  | failed (reason : Text)
  | raised (r : Raised)
  deriving DecidableEq, Repr

structure Attempt where
  delivered : Text
  response : Response
  deriving DecidableEq, Repr

/-- A user's output. Its behaviour may depend on all entries it has been given so far. -/
structure Device where
  description : Text
  channel : Channel
  received : List Text
  onWrite : (received : List Text) → (entry : Text) → Attempt
  onFlush : (received : List Text) → Response

inductive Output where
  | stream (c : Channel)
  | file (log : LogFile)
  | device (d : Device)

namespace Output

def description : Output → Text
  | stream _ => Text.ascii "Stream_handler"
  | file log => log.description
  | device d => d.description

end Output

structure Handler where
  threshold : Severity
  formatter : Formatter
  fallback : Channel
  output : Output

namespace Handler

open Text

def description (h : Handler) : Text := h.output.description

def accepts (h : Handler) (s : Severity) : Bool := decide (h.threshold ≤ s)

def reportLine (h : Handler) (problem : Text) : Text :=
  ascii "quire: " ++ h.description ++ ascii ": " ++ problem ++ ascii "\n"

def report (h : Handler) (host : Host) (problem : Text) : Host :=
  host.write h.fallback (h.reportLine problem)

def ioError : Text := FileError.message .inputOutput

def deliver (h : Handler) (entry : Text) (host : Host) : Response × Handler × Host :=
  match h.output with
  | .stream c =>
    let streams := host.streams.write c entry
    if streams.isBad c then (.failed ioError, h, { host with streams := streams.clear c })
    else (.done, h, { host with streams := streams })
  | .file log =>
    let (ok, work) := LogFile.Work.write host.clock entry ⟨log, host.files, []⟩
    let host := work.problems.foldl (fun host p => h.report host p.message)
      { host with files := work.files }
    (if ok then .done else .failed ioError, { h with output := .file work.log }, host)
  | .device d =>
    let attempt := d.onWrite d.received entry
    (attempt.response, { h with output := .device { d with received := d.received ++ [entry] } },
      if attempt.delivered = [] then host else host.write d.channel attempt.delivered)

def salvage (h : Handler) (entry reason : Text) (host : Host) : Host :=
  (h.report host (ascii "Write failed (" ++ reason ++ ascii "); entry follows.")).write h.fallback
    entry

def conclude (h : Handler) (entry : Text) (response : Response) (host : Host) : Host :=
  match response with
  | .done => host
  | .failed reason => h.salvage entry reason host
  | .raised r =>
    h.salvage entry ioError (h.report host (ascii "Sink threw (" ++ r.reason ++ ascii ")."))

def handle (r : Record) (h : Handler) (host : Host) : Handler × Host :=
  if h.accepts r.severity then
    match h.formatter.render host.clock.offset r with
    | .error x =>
      (h, h.report host (ascii "Formatter failed (" ++ x.reason ++ ascii "); dropping entry ["
        ++ r.message ++ ascii "]."))
    | .ok text =>
      let entry := text ++ ascii "\n"
      let (response, h, host) := h.deliver entry host
      (h, h.conclude entry response host)
  else (h, host)

def askFlush (h : Handler) (host : Host) : Response × Host :=
  match h.output with
  | .stream c =>
    let streams := host.streams.flush c
    if streams.isBad c then (.failed ioError, { host with streams := streams.clear c })
    else (.done, { host with streams := streams })
  | .file log => (if log.flushes then .done else .failed ioError, host)
  | .device d => (d.onFlush d.received, host)

def flush (h : Handler) (host : Host) : Host :=
  match h.askFlush host with
  | (.done, host) => host
  | (.failed reason, host) => h.report host (ascii "Flush failed (" ++ reason ++ ascii ").")
  | (.raised r, host) => h.report host (ascii "Flush threw (" ++ r.reason ++ ascii ").")

/-- What is left of the host once the handler is gone: a log file is closed. -/
def close (h : Handler) (host : Host) : Host :=
  match h.output with
  | .file log =>
    let work := LogFile.Work.close (Instant.floorSeconds host.clock.wall) ⟨log, host.files, []⟩
    { host with files := work.files }
  | _ => host

def handleAll (r : Record) : List Handler → Host → List Handler × Host
  | [], host => ([], host)
  | h :: rest, host =>
    let (h, host) := h.handle r host
    let (rest, host) := handleAll r rest host
    (h :: rest, host)

end Handler

end StructuredLog
