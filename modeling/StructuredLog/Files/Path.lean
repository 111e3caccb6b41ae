import StructuredLog.Text.Basic

/-!
Paths of files as texts: their parts, and how they are joined. A path that starts with a slash
is absolute; any other starts from the working directory. The system reads a path up to its
first NUL, and takes neither paths nor names beyond a certain length.
-/

namespace StructuredLog.FilePath

def slash : UInt8 := 47

def dot : Text := [46]

def dotDot : Text := [46, 46]

def isAbsolute (path : Text) : Bool := path.head? == some slash

def maxName : Nat := 255

def isTooLong (path : Text) : Bool := decide (4096 ≤ (Text.untilNul path).length)

def components (path : Text) : List Text :=
  (Text.splitAt slash (Text.untilNul path)).filter (· ≠ [])

def fileName (path : Text) : Text := (path.reverse.takeWhile (· ≠ slash)).reverse

def parent (path : Text) : Text :=
  let before := path.reverse.dropWhile (· ≠ slash)
  let stripped := (before.dropWhile (· = slash)).reverse
  if stripped = [] ∧ isAbsolute path then [slash] else stripped

def join (dir name : Text) : Text :=
  if isAbsolute name ∨ dir = [] then name
  else if dir.getLast? = some slash then dir ++ name
  else dir ++ [slash] ++ name

def withSuffix (path suffix : Text) : Text := path ++ dot ++ suffix

end StructuredLog.FilePath
