import StructuredLog.Text.Basic

/-!
Names of source modules, taken from the paths of their files: the last segment of the path,
without its last extension. A leading dot does not start an extension.
-/

namespace StructuredLog.SourcePath

def lastSegment (path : Text) : Text := (path.reverse.takeWhile (· ≠ 47)).reverse

/-- A segment cut at its last dot, unless that is its first octet or there is none. -/
def dropExtension : Text → Text
  | [] => []
  | first :: rest =>
    match rest.reverse.dropWhile (· ≠ 46) with
    | [] => first :: rest
    | _dot :: before => first :: before.reverse

def stem (path : Text) : Text := dropExtension (lastSegment path)

end StructuredLog.SourcePath
