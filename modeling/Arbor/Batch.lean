import Arbor.Conversion
import Arbor.Export
import Arbor.FileSystem

/-!
# Converting files

A file is read and converted; a batch of files is converted file by file, and a file that
fails does not keep the others from being converted.  The report of a batch holds the
converted files and the failures, both in the order of the inputs.

## Main declarations

* `LoadError`: why a file gives no tree.
* `FileSystem.convertFile`, `FileSystem.convertAll`.
* `Batch.Report`: what came out of a batch.
* `FileSystem.render`, `FileSystem.run`: the export of a batch as a text, and as a file.
-/

namespace Arbor

open Wire (Bytes)

/-- Why a file gives no tree. -/
inductive LoadError where
  | unreadable (path : String) (cause : AccessError)
  /-- A folder can be opened, but has no content. -/
  | unmappable (path : String)
  | unconvertible (path : String) (cause : ConvertError)
  deriving DecidableEq, Inhabited

namespace LoadError

/-- The text of an error with its causes.  A malformed file names its fault a second time,
as the cause of the cause. -/
def message : LoadError → String
  | unreadable path cause => s!"Failed to open {path}: {cause.message}"
  | unmappable path => s!"Failed to map {path}: No such device (os error 19)"
  | unconvertible path cause@(.malformed fault) =>
    s!"Failed to convert {path}: {cause.message}: {fault.message}"
  | unconvertible path cause => s!"Failed to convert {path}: {cause.message}"

/-- The warning about a file that was left out of a batch. -/
def warning (e : LoadError) : String :=
  s!"[Loader] {e.message}"

end LoadError

/-- Why an export comes to nothing. -/
inductive ExportError where
  /-- The exporter gives no text. -/
  | unrendered (message : String)
  /-- The text cannot be written, or not all of it. -/
  | unwritten (cause : AccessError)
  deriving DecidableEq, Inhabited

/-- The text of the error. -/
def ExportError.message : ExportError → String
  | unrendered message => message
  | unwritten cause => cause.message

namespace Batch

/-- What became of one input. -/
structure Outcome where
  path : String
  result : Except LoadError Root

/-- What became of all inputs. -/
structure Report where
  files : List SourceFile
  failures : List LoadError
  deriving Inhabited

namespace Report

/-- The inputs that were converted, and the failures of those that were not. -/
def ofOutcomes (outcomes : List Outcome) : Report where
  files := outcomes.filterMap fun o =>
    match o.result with
    | .ok root => some { path := o.path, root }
    | .error _ => none
  failures := outcomes.filterMap fun o =>
    match o.result with
    | .ok _ => none
    | .error e => some e

/-- The number of inputs that were converted. -/
def converted (r : Report) : Nat :=
  r.files.length

/-- The number of inputs that were not. -/
def failed (r : Report) : Nat :=
  r.failures.length

/-- One warning for each failure. -/
def warnings (r : Report) : List String :=
  r.failures.map LoadError.warning

end Report

end Batch

/-- The tree of what was read at a path. -/
def Root.load (limits : Limits) (path : String) : Except AccessError Bytes → Except LoadError Root
  | .error .isFolder => .error (.unmappable path)
  | .error e => .error (.unreadable path e)
  | .ok content =>
    match (Root.ofBytes limits content).result with
    | .error e => .error (.unconvertible path e)
    | .ok root => .ok root

namespace FileSystem

/-- The tree of the file at a path. -/
def convertFile (fs : FileSystem) (limits : Limits) (path : String) : Except LoadError Root :=
  Root.load limits path (fs.read path)

/-- What becomes of each of the given files. -/
def convertAll (fs : FileSystem) (limits : Limits) (paths : List String) : List Batch.Outcome :=
  paths.map fun path => { path, result := fs.convertFile limits path }

/-- What becomes of the given files together. -/
def convertBatch (fs : FileSystem) (limits : Limits) (paths : List String) : Batch.Report :=
  .ofOutcomes (fs.convertAll limits paths)

/-- Write the export of converted files to a file.  If there is no text to be written, the
file is not opened. -/
def writeExport (fs : FileSystem) (exporter : Exporter) (files : List SourceFile)
    (path : String) : Except ExportError Unit × FileSystem :=
  match exporter.render files with
  | .error message => (.error (.unrendered message), fs)
  | .ok text =>
    match fs.write path text.toUTF8.data.toList with
    | (.error e, fs) => (.error (.unwritten e), fs)
    | (.ok (), fs) => (.ok (), fs)

/-- Convert a batch and give the text of its export. -/
def render (fs : FileSystem) (limits : Limits) (exporter : Exporter) (paths : List String) :
    Except String String × Batch.Report :=
  let report := fs.convertBatch limits paths
  (exporter.render report.files, report)

/-- Convert a batch and write its export to a file. -/
def run (fs : FileSystem) (limits : Limits) (exporter : Exporter) (paths : List String)
    (output : String) : Except ExportError Unit × Batch.Report × FileSystem :=
  let report := fs.convertBatch limits paths
  let (result, fs) := fs.writeExport exporter report.files output
  (result, report, fs)

end FileSystem

end Arbor
