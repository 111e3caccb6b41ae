import StructuredLog.Scenario.Step

/-!
What is observed while a scenario runs: the answer of each step, and what was written to sinks
and files since the previous observation.
-/

namespace StructuredLog.Scenario

/-- What is seen of a directory entry. A long file shows its size and its end only. -/
inductive EntryView where
  | directory
  | file (content : Text)
  | longFile (size : Nat) (tail : Text)
  deriving DecidableEq, Repr

namespace EntryView

def wholeLimit : Nat := 4096

def tailLength : Nat := 64

def ofContent : Option (Array UInt8) → EntryView
  | none => directory
  | some content =>
    if content.size ≤ wholeLimit then file content.toList
    else longFile content.size (content.extract (content.size - tailLength) content.size).toList

end EntryView

abbrev TreeView := List (Text × EntryView)

/-- What was written since the previous observation. -/
structure Delta where
  sinks : List (Text × Text)
  tree : Option TreeView
  deriving DecidableEq, Repr

structure LoggerInfo where
  name : Text
  level : Severity
  handlers : List (Text × Severity)
  filters : List Filter
  configuredFilters : Nat

structure HandlerInfo where
  description : Text
  threshold : Severity
  path : Option Text
  colors : Option Bool
  deriving DecidableEq, Repr

inductive Answer where
  | raised (r : Raised)
  | number (n : Int)
  | truth (b : Bool)
  | text (t : Text)
  | fields (f : Fields)
  | logger (id : Option LoggerId)
  | loggerInfo (info : LoggerInfo)
  | handlerInfo (info : HandlerInfo)

inductive Report where
  | mk (answer : Option Answer) (start : Option Delta) (work : Option (List Report))
      (recovery : Option (List Report)) (written : Delta)

namespace Report

def answer : Report → Option Answer
  | mk answer _ _ _ _ => answer

def simple (answer : Option Answer) (written : Delta) : Report := mk answer none none none written

end Report

end StructuredLog.Scenario
