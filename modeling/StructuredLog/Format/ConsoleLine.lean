import StructuredLog.Format.JsonText
import StructuredLog.Record

/-!
The form of a record for readers at a terminal: local time, severity, logger, message, and the
fields as pairs; a captured error follows on lines of its own.
-/

namespace StructuredLog.ConsoleLine

open Text

def color (s : Severity) : Text :=
  if s = .debug then ascii "\x1b[36m"
  else if s = .info then ascii "\x1b[32m"
  else if s = .warning then ascii "\x1b[33m"
  else if s = .error then ascii "\x1b[31m"
  else if s = .critical then ascii "\x1b[1;35m"
  else []

def colorReset : Text := ascii "\x1b[0m"

def timestamp (offset : Int) (t : Instant) : Text :=
  ascii "[" ++ Instant.localDate offset t ++ ascii " " ++ Instant.localTime offset t ++ ascii "."
    ++ Decimal.paddedInt 3 (Instant.millisecond t) ++ ascii "] "

def severity (colors : Bool) (s : Severity) : Text :=
  if colors then color s ++ s.name ++ colorReset else s.name

def value : Value → Text
  | .text t => t
  | v => JsonText.value v

def pairs (f : Fields) : Text :=
  f.toList.flatMap fun e => ascii " " ++ e.1 ++ ascii "=" ++ value e.2

def fields (context extra : Fields) : Text :=
  if context.isEmpty && extra.isEmpty then [] else ascii " |" ++ pairs context ++ pairs extra

def error : Option ErrorInfo → Text
  | none => []
  | some e =>
    ascii "\nTraceback (most recent call first):"
      ++ e.frames.flatMap (fun frame => ascii "\n  " ++ frame)
      ++ ascii "\n" ++ e.kind ++ ascii ": " ++ e.message

def render (colors : Bool) (offset : Int) (r : Record) : Text :=
  timestamp offset r.time ++ severity colors r.severity ++ ascii " " ++ r.logger ++ ascii ": "
    ++ r.message ++ fields r.context r.extra ++ error r.error

end StructuredLog.ConsoleLine
