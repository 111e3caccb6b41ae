import StructuredLog.Assoc
import StructuredLog.Files.Path

/-!
A file system around a working directory. Directory entries map locations to nodes; the files
themselves are numbered, and a stream is open on a number, so it follows a file that is renamed
and goes on writing to one that was removed. What is reached from the root is fixed: it can be
opened, but nothing is made, moved or removed there. Every operation says why it fails. The disk
may be full, at any time and for any write: it then takes the first octets only, or none.
-/

namespace StructuredLog

inductive FileError where
  | notFound
  | notDirectory
  | isDirectory
  | notEmpty
  | denied
  | busy
  | invalid
  | alreadyExists
  | nameTooLong
  | inputOutput
  deriving DecidableEq, Repr

namespace FileError

def message : FileError → Text
  | notFound => Text.ascii "No such file or directory"
  | notDirectory => Text.ascii "Not a directory"
  | isDirectory => Text.ascii "Is a directory"
  | notEmpty => Text.ascii "Directory not empty"
  | denied => Text.ascii "Permission denied"
  | busy => Text.ascii "Device or resource busy"
  | invalid => Text.ascii "Invalid argument"
  | alreadyExists => Text.ascii "File exists"
  | nameTooLong => Text.ascii "File name too long"
  | inputOutput => Text.ascii "Input/output error"

end FileError

/-- The names that lead to an entry. They are counted from the working directory, with two dots in
front for each directory above it, or from the root if the first is a slash. -/
abbrev Location := List Text

namespace Location

def root : Location := [[FilePath.slash]]

def start (path : Text) : Location := if FilePath.isAbsolute path then root else []

def isFixed (loc : Location) : Bool := loc.head? == some [FilePath.slash]

def isAncestor (loc : Location) : Bool := loc.all fun name => name == FilePath.dotDot

def above (loc : Location) : Location :=
  if loc = root then root
  else if isAncestor loc then loc ++ [FilePath.dotDot]
  else loc.dropLast

def isWithin (dir loc : Location) : Bool :=
  dir.isPrefixOf loc && match loc.drop dir.length with
    | [] => true
    | name :: _ => name != FilePath.dotDot && name != [FilePath.slash]

end Location

structure File where
  content : Array UInt8
  modified : Int
  deriving DecidableEq

namespace File

def overlay (content : Array UInt8) (position : Nat) (data : Text) : Array UInt8 :=
  if position = content.size then content ++ data
  else
    content.take position ++ Array.replicate (position - content.size) 0 ++ data
      ++ content.extract (position + data.length) content.size

/-- The file after octets were put at a position, or at its end. Putting none does not count as a
modification. -/
def put (f : File) (position : Option Nat) (data : Text) (now : Int) : File :=
  if data = [] then f else ⟨overlay f.content (position.getD f.content.size) data, now⟩

end File

inductive SpecialFile where
  | discarding
  | refusing
  deriving DecidableEq, Repr

inductive Node where
  | directory
  | file (number : Nat)
  | special (kind : SpecialFile)
  deriving DecidableEq, Repr

/-- The disk behind the files; what it has room for is left open. -/
structure Disk where
  /-- How many octets of a text it takes into a file of this content. -/
  takes : (content : Array UInt8) → (data : Text) → Nat
  /-- A shorter text is written by way of the stream's buffer, and stays there if it is refused. -/
  buffer : Nat

namespace Disk

def ample : Disk := ⟨fun _ data => data.length, 8191⟩

/-- What a stream still holds of a text that the disk did not take. -/
def held (d : Disk) (data : Text) : Text := if data.length < d.buffer then data else []

end Disk

structure FileSystem where
  entries : List (Location × Node)
  files : List File
  disk : Disk

inductive WriteTarget where
  | file (number : Nat)
  | special (kind : SpecialFile)
  deriving DecidableEq, Repr

namespace FileSystem

def empty : FileSystem := ⟨[], [], .ample⟩

/-- The node at a location; the root, the working directory and those above it are directories. -/
def node? (fs : FileSystem) (loc : Location) : Option Node :=
  if loc = Location.root ∨ Location.isAncestor loc then some .directory
  else Assoc.get? loc fs.entries

def child? (fs : FileSystem) (dir : Location) (name : Text) : Except FileError (Option Node) :=
  if FilePath.maxName < name.length then .error .nameTooLong else .ok (fs.node? (dir ++ [name]))

def walk (fs : FileSystem) : (here : Location) → List Text → Except FileError Location
  | here, [] => .ok here
  | here, name :: rest =>
    if name = FilePath.dot then walk fs here rest
    else if name = FilePath.dotDot then walk fs (Location.above here) rest
    else match fs.child? here name with
      | .error e => .error e
      | .ok none => .error .notFound
      | .ok (some .directory) => walk fs (here ++ [name]) rest
      | .ok (some _) => .error .notDirectory

/-- What a path ends in: a name, a name and a slash, or dots, which are no entry's name. -/
inductive PathEnd where
  | name
  | slash
  | dots
  deriving DecidableEq, Repr

structure Place where
  location : Location
  pathEnd : PathEnd
  deriving DecidableEq, Repr

def resolve (fs : FileSystem) (path : Text) : Except FileError Place :=
  if FilePath.isTooLong path then .error .nameTooLong
  else
    let names := FilePath.components path
    match names.getLast? with
    | none => if FilePath.isAbsolute path then .ok ⟨Location.root, .dots⟩ else .error .notFound
    | some name =>
      match fs.walk (Location.start path) names.dropLast with
      | .error e => .error e
      | .ok here =>
        if name = FilePath.dot then .ok ⟨here, .dots⟩
        else if name = FilePath.dotDot then .ok ⟨Location.above here, .dots⟩
        else if FilePath.maxName < name.length then .error .nameTooLong
        else if (Text.untilNul path).getLast? = some FilePath.slash then
          .ok ⟨here ++ [name], .slash⟩
        else .ok ⟨here ++ [name], .name⟩

def stat (fs : FileSystem) (path : Text) : Except FileError Node :=
  match fs.resolve path with
  | .error e => .error e
  | .ok place =>
    match fs.node? place.location with
    | none => .error .notFound
    | some .directory => .ok .directory
    | some node => if place.pathEnd = .name then .ok node else .error .notDirectory

def exists? (fs : FileSystem) (path : Text) : Bool := (fs.stat path).isOk

def fileAt? (fs : FileSystem) (path : Text) : Option File :=
  match fs.stat path with
  | .ok (.file n) => fs.files[n]?
  | _ => none

def size? (fs : FileSystem) (path : Text) : Option Nat :=
  (fs.fileAt? path).map (·.content.size)

def modified? (fs : FileSystem) (path : Text) : Option Int := (fs.fileAt? path).map (·.modified)

def modifyFile (fs : FileSystem) (n : Nat) (change : File → File) : FileSystem :=
  { fs with files := fs.files.modify n change }

def namesIn (fs : FileSystem) (dir : Location) : List Text :=
  fs.entries.filterMap fun e =>
    if e.1.length = dir.length + 1 ∧ dir.isPrefixOf e.1 then e.1.getLast? else none

def isEmptyDirectory (fs : FileSystem) (dir : Location) : Bool := (fs.namesIn dir).isEmpty

/-- Makes the directories on the way that are missing, and keeps those if a later one cannot be
made. `making` says whether one was missing so far. -/
def makeWay : (fs : FileSystem) → (making : Bool) → (here : Location) → List Text →
    Except FileError Unit × FileSystem
  | fs, _, _, [] => (.ok (), fs)
  | fs, making, here, name :: rest =>
    if name = FilePath.dot then makeWay fs making here rest
    else if name = FilePath.dotDot then makeWay fs making (Location.above here) rest
    else match fs.child? here name with
      | .error e => (.error e, fs)
      | .ok (some .directory) => makeWay fs making (here ++ [name]) rest
      | .ok (some _) => (.error (if making then .alreadyExists else .notDirectory), fs)
      | .ok none =>
        if Location.isFixed here then (.error .denied, fs)
        else makeWay { fs with entries := Assoc.set (here ++ [name]) .directory fs.entries } true
          (here ++ [name]) rest

def makeDirectories (fs : FileSystem) (path : Text) : Except FileError Unit × FileSystem :=
  if FilePath.isTooLong path then (.error .nameTooLong, fs)
  else fs.makeWay false (Location.start path) (FilePath.components path)

/-- Opens a file for appending, or emptied first; a missing file is created. -/
def openFile (fs : FileSystem) (path : Text) (truncate : Bool) (now : Int) :
    Except FileError (WriteTarget × FileSystem) :=
  match fs.resolve path with
  | .error e => .error e
  | .ok place =>
    if place.pathEnd ≠ .name then .error .isDirectory
    else match fs.node? place.location with
      | some .directory => .error .isDirectory
      | some (.special kind) => .ok (.special kind, fs)
      | some (.file n) =>
        .ok (.file n, if truncate then fs.modifyFile n fun _ => ⟨#[], now⟩ else fs)
      | none =>
        if Location.isFixed place.location then .error .denied
        else
          .ok (.file fs.files.length,
            { fs with
              entries := Assoc.set place.location (.file fs.files.length) fs.entries
              files := fs.files ++ [⟨#[], now⟩] })

def room (fs : FileSystem) (target : WriteTarget) (data : Text) : Nat :=
  match target with
  | .special .discarding => data.length
  | .special .refusing => 0
  | .file n =>
    match fs.files[n]? with
    | some f => min (fs.disk.takes f.content data) data.length
    | none => 0

/-- Writes to an open file, at its end or at a position of the stream's own, what it takes of a
text. -/
def write (fs : FileSystem) (target : WriteTarget) (position : Option Nat) (data : Text)
    (now : Int) :
    FileSystem :=
  match target with
  | .special _ => fs
  | .file n => fs.modifyFile n fun f => f.put position (data.take (fs.room target data)) now

def writeFile (fs : FileSystem) (path : Text) (content : Array UInt8) (append : Bool) (now : Int) :
    FileSystem :=
  match fs.openFile path (!append) now with
  | .ok (.file n, opened) =>
    if content.isEmpty then opened else opened.modifyFile n fun f => ⟨f.content ++ content, now⟩
  | _ => fs

def remove (fs : FileSystem) (path : Text) : Except FileError FileSystem :=
  match fs.resolve path with
  | .error .notFound => .ok fs
  | .error e => .error e
  | .ok place =>
    match fs.node? place.location with
    | none => .ok fs
    | some node =>
      if place.pathEnd = .dots then .error .busy
      else if Location.isFixed place.location then .error .denied
      else if node = .directory then
        if fs.isEmptyDirectory place.location then
          .ok { fs with entries := Assoc.erase place.location fs.entries }
        else .error .notEmpty
      else if place.pathEnd = .slash then .error .notDirectory
      else .ok { fs with entries := Assoc.erase place.location fs.entries }

/-- Removes an entry and all below it. A directory reached by dots stays, empty. -/
def removeAll (fs : FileSystem) (path : Text) : FileSystem :=
  match fs.resolve path with
  | .error _ => fs
  | .ok place =>
    if Location.isFixed place.location then fs
    else if place.pathEnd = .slash ∧ fs.node? place.location ≠ some .directory then fs
    else
      { fs with entries := fs.entries.filter fun e =>
          !Location.isWithin place.location e.1
            || (place.pathEnd == .dots && e.1 == place.location) }

def moveBelow (source target : Location) (entries : List (Location × Node)) :
    List (Location × Node) :=
  entries.map fun e =>
    if source.isPrefixOf e.1 then (target ++ e.1.drop source.length, e.2) else e

/-- Whether a node may take the place of what is at `target`. -/
def mayReplace (fs : FileSystem) (source target : Location) (moved : Node) :
    Except FileError Unit :=
  if source.isPrefixOf target then .error .invalid
  else if target.isPrefixOf source then .error .notEmpty
  else match moved, fs.node? target with
    | _, none => .ok ()
    | .directory, some .directory =>
      if fs.isEmptyDirectory target then .ok () else .error .notEmpty
    | .directory, some _ => .error .notDirectory
    | _, some .directory => .error .isDirectory
    | _, some _ => .ok ()

def moveNode (fs : FileSystem) (moved : Node) (s t : Place) : Except FileError FileSystem :=
  if s.pathEnd = .dots ∨ t.pathEnd = .dots then .error .busy
  else if Location.isFixed s.location ∨ Location.isFixed t.location then .error .denied
  else if (s.pathEnd = .slash ∨ t.pathEnd = .slash) ∧ moved ≠ .directory then .error .notDirectory
  else if s.location = t.location then .ok fs
  else match fs.mayReplace s.location t.location moved with
    | .error e => .error e
    | .ok () =>
      .ok { fs with
        entries := moveBelow s.location t.location (Assoc.erase t.location fs.entries) }

/-- Renames a file or directory; a file, or an empty directory by a directory, is replaced. -/
def rename (fs : FileSystem) (source target : Text) : Except FileError FileSystem :=
  match fs.resolve source with
  | .error e => .error e
  | .ok s =>
    if FilePath.isTooLong target then .error .nameTooLong
    else match fs.node? s.location with
      | none => .error .notFound
      | some moved =>
        match fs.resolve target with
        | .error e => .error e
        | .ok t => fs.moveNode moved s t

def list (fs : FileSystem) (path : Text) : Except FileError (List Text) :=
  match fs.walk (Location.start path) (FilePath.components path) with
  | .error e => .error e
  | .ok dir => .ok (fs.namesIn dir)

def setModified (fs : FileSystem) (path : Text) (second : Int) : FileSystem :=
  match fs.stat path with
  | .ok (.file n) => fs.modifyFile n fun f => { f with modified := second }
  | _ => fs

def pathText : Location → Text
  | [] => []
  | [name] => name
  | name :: rest => name ++ [FilePath.slash] ++ pathText rest

def tree (fs : FileSystem) : List (Text × Option (Array UInt8)) :=
  ((fs.entries.filter fun e => Location.isWithin [] e.1).map fun e =>
    (pathText e.1, match e.2 with
      | .file n => some ((fs.files[n]?.map (·.content)).getD #[])
      | _ => none)).mergeSort
    fun a b => Text.le a.1 b.1

end FileSystem

end StructuredLog
