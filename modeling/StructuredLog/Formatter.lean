import StructuredLog.Format.JsonLine
import StructuredLog.Format.ConsoleLine

/-!
Formatters turn a record into the text of one entry. The built-in ones always succeed; a custom
one is any function of the record, and may raise.
-/

namespace StructuredLog

inductive Formatter where
  | json
  | console (colors : Bool)
  | custom (render : Record → Except Raised Text)

namespace Formatter

def render (offset : Int) : Formatter → Record → Except Raised Text
  | json, r => .ok (JsonLine.render r)
  | console colors, r => .ok (ConsoleLine.render colors offset r)
  | custom render, r => render r

def colors? : Formatter → Option Bool
  | console colors => some colors
  | _ => none

end Formatter

end StructuredLog
