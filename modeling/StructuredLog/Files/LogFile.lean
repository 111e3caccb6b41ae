import StructuredLog.Files.FileSystem
import StructuredLog.Time.Instant

/-!
A log file and its rotation. A log file keeps a stream open for appending and knows the size it
has reached. A file that rotates by size moves its content to the backup `.1`, and each backup to
the next number, before a write that would exceed the limit; one that rotates daily moves its
content to a backup named after the local date of its period, at the first write after midnight.

Nothing here fails for good: every problem is noted, and a stream that could not be opened or
was refused octets is opened again by the next write. It is closed first, and what it still holds of
the octets that were refused goes to the file then, if the disk takes them now.
-/

namespace StructuredLog

inductive FileProblem where
  | cannotOpen (e : FileError)
  | cannotRotate (target : Text) (e : FileError)
  | cannotRemoveOldest (e : FileError)
  | cannotShift (source : Text) (e : FileError)
  | cannotScan (dir : Text) (e : FileError)
  | cannotRemoveBackup (name : Text) (e : FileError)
  deriving DecidableEq, Repr

namespace FileProblem

open Text

def message : FileProblem → Text
  | cannotOpen e => ascii "Could not open (" ++ e.message ++ ascii ").  Will retry on next write."
  | cannotRotate target e =>
    ascii "Could not rotate to [" ++ target ++ ascii "] (" ++ e.message
      ++ ascii "); continuing in current file."
  | cannotRemoveOldest e => ascii "Could not remove oldest backup (" ++ e.message ++ ascii ")."
  | cannotShift source e =>
    ascii "Could not shift backup [" ++ source ++ ascii "] (" ++ e.message ++ ascii ")."
  | cannotScan dir e =>
    ascii "Could not scan [" ++ dir ++ ascii "] for old backups (" ++ e.message ++ ascii ")."
  | cannotRemoveBackup name e =>
    ascii "Could not remove old backup [" ++ name ++ ascii "] (" ++ e.message ++ ascii ")."

end FileProblem

inductive TimeSource where
  | wall
  | monotonic
  deriving DecidableEq, Repr

namespace TimeSource

def now (c : Clock) : TimeSource → Instant
  | wall => c.wall
  | monotonic => c.monotonic

end TimeSource

/-- The day whose entries a log file is collecting, and the instant from which it is over. -/
structure Period where
  date : Text
  rollover : Instant
  deriving DecidableEq, Repr

namespace Period

def containing (offset : Int) (t : Instant) : Period :=
  ⟨Instant.localDate offset t, Instant.nextMidnight offset t⟩

end Period

inductive Rotation where
  | never
  | bySize (limit backups : Nat)
  | daily (backups : Nat) (source : TimeSource) (period : Period)
  deriving DecidableEq, Repr

structure WriteStream where
  target : WriteTarget
  /-- Where the next write goes; a stream without a position appends. -/
  position : Option Nat
  /-- What the stream still holds of a text that was refused; it takes no more then. -/
  refused : Option Text
  deriving DecidableEq, Repr

namespace WriteStream

def failed (s : WriteStream) : Bool := s.refused.isSome

def advance (s : WriteStream) (n : Nat) : WriteStream :=
  { s with position := s.position.map (· + n) }

end WriteStream

structure LogFile where
  path : Text
  stream : Option WriteStream
  /-- The size of the file when it was last opened, and what was written since. -/
  size : Nat
  rotation : Rotation
  deriving DecidableEq, Repr

namespace LogFile

/-- A log file at work: with the files around it and the problems met, in order. -/
structure Work where
  log : LogFile
  files : FileSystem
  problems : List FileProblem

namespace Work

def note (w : Work) (p : FileProblem) : Work := { w with problems := w.problems ++ [p] }

/-- The files once the stream has given up what it still holds. -/
def drained (now : Int) (w : Work) : FileSystem :=
  match w.log.stream with
  | some ⟨target, position, some held⟩ => w.files.write target position held now
  | _ => w.files

def close (now : Int) (w : Work) : Work :=
  { w with files := w.drained now, log := { w.log with stream := none } }

/-- Opens the stream and takes the size from the file; makes the directories above it first. A
stream on a file that is emptied keeps a position of its own, any other appends. -/
def openStream (now : Int) (truncate : Bool) (w : Work) : Except FileError Unit × Work :=
  let parent := FilePath.parent w.log.path
  match if parent = [] then (.ok (), w.files) else w.files.makeDirectories parent with
  | (.error e, files) => (.error e, { w with files := files })
  | (.ok (), files) =>
    match files.openFile w.log.path truncate now with
    | .error _ => (.error .denied, { w with files := files })
    | .ok (target, files) =>
      (.ok (),
        { w with
          files := files
          log := { w.log with
            stream := some ⟨target, if truncate then some 0 else none, none⟩
            size := (files.size? w.log.path).getD 0 } })

def reopen (now : Int) (truncate : Bool) (w : Work) : Work :=
  match (w.close now).openStream now truncate with
  | (.ok (), w) => w
  | (.error e, w) => w.note (.cannotOpen e)

def rotateTo (now : Int) (target : Text) (w : Work) : Work :=
  let w := w.close now
  match w.files.rename w.log.path target with
  | .ok files => reopen now false { w with files := files }
  | .error e => reopen now false (w.note (.cannotRotate target e))

def numberedBackup (path : Text) (n : Nat) : Text := FilePath.withSuffix path (Decimal.ofNat n)

def removeOldest (backups : Nat) (w : Work) : Work :=
  match w.files.remove (numberedBackup w.log.path backups) with
  | .ok files => { w with files := files }
  | .error e => w.note (.cannotRemoveOldest e)

def shiftBackup (w : Work) (n : Nat) : Work :=
  let source := numberedBackup w.log.path n
  if w.files.exists? source then
    match w.files.rename source (numberedBackup w.log.path (n + 1)) with
    | .ok files => { w with files := files }
    | .error e => w.note (.cannotShift source e)
  else w

def shiftOrder (backups : Nat) : List Nat := (List.range (backups - 1)).reverse.map (· + 1)

def rotateBySize (now : Int) (backups : Nat) (w : Work) : Work :=
  if backups = 0 then w.reopen now true
  else
    ((shiftOrder backups).foldl shiftBackup (w.removeOldest backups)).rotateTo now
      (numberedBackup w.log.path 1)

def isDateOctet (b : UInt8) : Bool := b == 45 || Text.isDigit b

/-- Ten octets in the shape of a date, whether or not the calendar has it. -/
def hasDateShape (t : Text) : Bool :=
  t.length == 10 && t.all isDateOctet && t[4]? == some 45 && t[7]? == some 45

def isDatedBackup (fileName name : Text) : Bool :=
  let front := fileName ++ FilePath.dot
  front.isPrefixOf name && hasDateShape (name.drop front.length)

def doomed (backups : Nat) (names : List Text) : List Text :=
  let sorted := names.mergeSort Text.le
  sorted.take (sorted.length - backups)

def removeBackup (dir : Text) (w : Work) (name : Text) : Work :=
  match w.files.remove (FilePath.join dir name) with
  | .ok files => { w with files := files }
  | .error e => w.note (.cannotRemoveBackup name e)

/-- Removes dated backups until `backups` are left; zero keeps all. -/
def prune (backups : Nat) (w : Work) : Work :=
  if backups = 0 then w
  else
    let parent := FilePath.parent w.log.path
    let dir := if parent = [] then FilePath.dot else parent
    match w.files.list dir with
    | .error e => w.note (.cannotScan dir e)
    | .ok names =>
      (doomed backups (names.filter (isDatedBackup (FilePath.fileName w.log.path)))).foldl
        (removeBackup dir) w

def datedBackup (path date : Text) : Text := FilePath.withSuffix path date

def beforeWrite (clock : Clock) (entrySize : Nat) (w : Work) : Work :=
  let now := Instant.floorSeconds clock.wall
  match w.log.rotation with
  | .never => w
  | .bySize limit backups =>
    if limit ≠ 0 ∧ w.log.size ≠ 0 ∧ limit < w.log.size + entrySize then w.rotateBySize now backups
    else w
  | .daily backups source period =>
    let time := source.now clock
    if time < period.rollover then w
    else
      let w := (w.rotateTo now (datedBackup w.log.path period.date)).prune backups
      { w with log := { w.log with
        rotation := .daily backups source (Period.containing clock.offset time) } }

def isWritable (w : Work) : Bool :=
  match w.log.stream with
  | some s => !s.failed
  | none => false

def put (now : Int) (entry : Text) (w : Work) : Bool × Work :=
  match w.log.stream with
  | none => (false, w)
  | some s =>
    if s.failed then (false, w)
    else
      let taken := w.files.room s.target entry
      let w := { w with files := w.files.write s.target s.position entry now }
      if taken = entry.length then
        (true, { w with
          log := { w.log with
            stream := some (s.advance taken)
            size := w.log.size + entry.length } })
      else
        (false, { w with
          log := { w.log with
            stream := some { s.advance taken with refused := some (w.files.disk.held entry) } } })

def write (clock : Clock) (entry : Text) (w : Work) : Bool × Work :=
  let now := Instant.floorSeconds clock.wall
  let w := w.beforeWrite clock entry.length
  put now entry (if w.isWritable then w else w.reopen now false)

end Work

inductive Schedule where
  | never
  | bySize (limit backups : Nat)
  | daily (backups : Nat) (source : TimeSource)
  deriving DecidableEq, Repr

/-- The rotation a new log file starts with. The period of a file that already has content is
that of its last modification, unless this lies ahead. -/
def startRotation (clock : Clock) (size : Nat) (modified : Option Int) : Schedule → Rotation
  | .never => .never
  | .bySize limit backups => .bySize limit backups
  | .daily backups source =>
    let now := source.now clock
    let start := match modified with
      | some second => if size = 0 then now else min now (Instant.ofSeconds second)
      | none => now
    .daily backups source (Period.containing clock.offset start)

/-- Opens a log file. Failure leaves at most new directories behind. -/
def create (clock : Clock) (path : Text) (schedule : Schedule) (files : FileSystem) :
    Except FileError LogFile × FileSystem :=
  let w : Work := ⟨⟨path, none, 0, .never⟩, files, []⟩
  match w.openStream (Instant.floorSeconds clock.wall) false with
  | (.error e, w) => (.error e, w.files)
  | (.ok (), w) =>
    (.ok { w.log with
      rotation := startRotation clock w.log.size (w.files.modified? path) schedule }, w.files)

def flushes (log : LogFile) : Bool :=
  match log.stream with
  | some s => !s.failed
  | none => true

def description (log : LogFile) : Text :=
  let kind := match log.rotation with
    | .never => Text.ascii "File_handler"
    | .bySize _ _ => Text.ascii "Size_rotating_file_handler"
    | .daily _ _ _ => Text.ascii "Daily_rotating_file_handler"
  kind ++ Text.ascii " @ [" ++ log.path ++ Text.ascii "]"

end LogFile

end StructuredLog
