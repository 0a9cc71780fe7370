import Arbor.FileSystem
import Arbor.FileType

/-!
# Scanning folders

A scan finds the serialized syntax trees at or below a path: the files whose type is
`binary`.  It goes by paths: each name in a folder is joined to the path of the folder, and
what the longer path stands for is looked up again.  So folders are gone into whatever their
names are, and links to folders too; a folder whose path is too long to be looked up cannot
be told from a file.  A folder that cannot be listed makes the scan fail, and so does a
device that the scan starts at.  The result is in the order of paths, so the order in which
folders list their entries makes no difference.
-/

namespace Arbor

/-- A folder that cannot be listed. -/
structure ScanError where
  path : String
  deriving DecidableEq, Inhabited

/-- The text of the error. -/
def ScanError.message (e : ScanError) : String :=
  s!"Failed to read {e.path}"

/-- The path itself, if it is that of a serialized file. -/
def serialized (path : String) : List String :=
  if FileType.ofPath? path = some .binary then [path] else []

namespace FileSystem

/-- The serialized files at or below a path, through at most the given number of folders
inside each other. -/
def scanWith (fs : FileSystem) : Nat → String → Except ScanError (List String)
  | 0, _ => .ok []
  | depth + 1, path =>
    match fs.entry path with
    | .error _ => .ok []
    | .ok (.file _) | .ok (.locked false) => .ok (serialized path)
    | .ok (.folder es) => do
      let found ← es.mapM fun (name, _) =>
        let inside := Path.join path name
        if fs.isFolder inside then fs.scanWith depth inside else .ok (serialized inside)
      return found.flatten
    | .ok _ => .error { path }

/-- The serialized files at or below a path, in order, if all folders can be listed.  Where
nothing is, nothing is found.  Each folder has a longer path than the one around it, so there
are no more folders inside each other than a path has bytes. -/
def gather (fs : FileSystem) (path : String) : Except ScanError (List String) :=
  (fs.scanWith (Path.maxSize + 1) path).map (List.mergeSort · Path.le)

/-- What a scan of a path finds; nothing if it fails. -/
def scan (fs : FileSystem) (path : String) : List String :=
  (fs.gather path).toOption.getD []

end FileSystem

end Arbor
