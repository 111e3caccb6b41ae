import StructuredLog.Assoc
import StructuredLog.Text.Basic

/-!
Output streams. A sink collects octets, and may refuse them. A stream writes to a sink; once a
write or flush of it is refused the stream is bad and passes nothing on until it is cleared. The
process has three streams of its own, and every sink has one that is named after it. Standard
output is flushed before standard error is used, so what was written first is seen first.
-/

namespace StructuredLog

inductive Channel where
  | standardOutput
  | standardError
  | standardLog
  | named (sink : Text)
  deriving DecidableEq, Repr

namespace Channel

def sink : Channel → Text
  | standardOutput => Text.ascii "stdout"
  | standardError => Text.ascii "stderr"
  | standardLog => Text.ascii "clog"
  | named sink => sink

/-- The stream that is flushed before this one is used. -/
def tiedTo : Channel → Option Channel
  | standardError => some standardOutput
  | _ => none

end Channel

structure Sink where
  content : Text
  refuses : Bool
  deriving DecidableEq, Repr

structure Streams where
  sinks : List (Text × Sink)
  bad : List Channel
  deriving DecidableEq, Repr

namespace Streams

def empty : Streams := ⟨[], []⟩

def sinkOf (s : Streams) (name : Text) : Sink := (Assoc.get? name s.sinks).getD ⟨[], false⟩

def put (s : Streams) (name : Text) (sink : Sink) : Streams :=
  { s with sinks := Assoc.set name sink s.sinks }

def setRefuses (s : Streams) (name : Text) (refuses : Bool) : Streams :=
  s.put name { s.sinkOf name with refuses := refuses }

def isBad (s : Streams) (c : Channel) : Bool := s.bad.contains c

def spoil (s : Streams) (c : Channel) : Streams :=
  if s.isBad c then s else { s with bad := c :: s.bad }

def clear (s : Streams) (c : Channel) : Streams := { s with bad := s.bad.filter (· ≠ c) }

def sync (s : Streams) (c : Channel) : Streams :=
  if (s.sinkOf c.sink).refuses then s.spoil c else s

def prepare (s : Streams) (c : Channel) : Streams :=
  match c.tiedTo with
  | some tied => if s.isBad c then s else s.sync tied
  | none => s

def flush (s : Streams) (c : Channel) : Streams := (s.prepare c).sync c

/-- Writes and flushes. A bad stream loses the text. -/
def write (s : Streams) (c : Channel) (t : Text) : Streams :=
  if s.isBad c then s
  else
    let s := s.prepare c
    let sink := s.sinkOf c.sink
    if sink.refuses then s.spoil c
    else s.put c.sink { sink with content := sink.content ++ t }

@[simp] theorem sinkOf_put_self (s : Streams) (name : Text) (sink : Sink) :
    (s.put name sink).sinkOf name = sink := by
  simp [sinkOf, put]

theorem sinkOf_put_of_ne {name other : Text} (h : other ≠ name) (s : Streams) (sink : Sink) :
    (s.put name sink).sinkOf other = s.sinkOf other := by
  simp [sinkOf, put, Assoc.get?_set_of_ne h]

@[simp] theorem sinkOf_spoil (s : Streams) (c : Channel) (name : Text) :
    (s.spoil c).sinkOf name = s.sinkOf name := by
  unfold spoil
  split <;> rfl

@[simp] theorem sinkOf_sync (s : Streams) (c : Channel) (name : Text) :
    (s.sync c).sinkOf name = s.sinkOf name := by
  unfold sync
  split
  · exact sinkOf_spoil s c name
  · rfl

@[simp] theorem sinkOf_prepare (s : Streams) (c : Channel) (name : Text) :
    (s.prepare c).sinkOf name = s.sinkOf name := by
  unfold prepare
  split
  · split
    · rfl
    · exact sinkOf_sync s _ name
  · rfl

end Streams

end StructuredLog
