import Arbor.Node.Json
import Arbor.Outline

/-!
# Exports

Converted source files are exported as one text.  An exporter says how, or that it cannot
be done; there is one for each of three formats: the trees as JSON, the outlines one after
the other, and the numbers of nodes as JSON.
-/

namespace Arbor

/-- A source file that was converted, with the path it came from. -/
structure SourceFile where
  path : String
  root : Root
  deriving Inhabited

/-- The form of an export. -/
inductive Format where
  | json
  | outline
  | stats
  deriving DecidableEq, Inhabited

namespace Format

/-- The name of a format. -/
def name : Format → String
  | json => "json"
  | outline => "outline"
  | stats => "stats"

/-- The format with the given name. -/
def ofName? (s : String) : Option Format :=
  [json, outline, stats].find? (·.name == s)

end Format

namespace Export

/-- The paths and trees as JSON. -/
def trees (files : List SourceFile) : Json :=
  .arr (files.map fun f => .obj [("path", .str f.path), ("root", f.root.toJson)])

/-- The paths and numbers of nodes as JSON, with the sums. -/
def counts (files : List SourceFile) : Json :=
  let entries := files.map fun f =>
    Json.obj [("path", .str f.path), ("nodes", f.root.census.toJson)]
  let total : Census := files.foldl (fun sum f => sum + f.root.census) 0
  .obj [("files", .arr entries), ("total", total.toJson)]

/-- The outlines, each below a line with the path. -/
def outlines (files : List SourceFile) : String :=
  String.join (files.map fun f => s!"== {f.path}\n" ++ f.root.outline)

/-- The text of an export. -/
def render : Format → List SourceFile → String
  | .json, files => (trees files).pretty
  | .outline, files => outlines files
  | .stats, files => (counts files).pretty

end Export

/-- A way to make one text of converted source files.  If there is none, an error says
why. -/
structure Exporter where
  render : List SourceFile → Except String String

/-- The exporter of a format.  It never fails. -/
def Format.exporter (format : Format) : Exporter where
  render files := .ok (Export.render format files)

instance : Coe Format Exporter where
  coe := Format.exporter

end Arbor
