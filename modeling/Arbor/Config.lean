import Arbor.FileSystem
import Arbor.Limits
import Arbor.Toml.Document
import Arbor.Workspace

/-!
# Configuration

Settings are read from a TOML document with the sections `nesting`, `workers` and
`paths`.  Everything has a default, so sections and keys may be left out; other keys are
not looked at.  A section may also be an array, which gives its settings in order.

## Main declarations

* `Config`: the settings.
* `Config.parse?`: the settings of a document.
* `FileSystem.loadConfig`, `FileSystem.loadConfigOrDefault`: the settings of a file.
-/

namespace Arbor

/-- How deep trees are rebuilt. -/
structure Nesting where
  unbounded : Bool := false
  statements : Nat := 2
  declarations : Nat := 1
  deriving DecidableEq, Inhabited

/-- The settings. -/
structure Config where
  nesting : Nesting := {}
  /-- The number of workers to convert files with. -/
  threads : Option Nat := none
  /-- The folder of the workspace. -/
  root : Option String := none
  deriving DecidableEq, Inhabited

namespace Config

open Toml (Item Entries)

/-- The default name of the file with the settings. -/
def defaultFile : String := "treewalk.toml"

/-- The setting with the given name and place in a section; none for a setting that is
left out.  A date counts as a section without settings. -/
def setting? (name : String) (place : Nat) : Item → Option (Option Item)
  | .table _ entries => some (entries.lookup name)
  | .array items => some items[place]?
  | .tables ts => some (ts[place]?.map (.table .header))
  | .moment => some none
  | _ => none

/-- A flag. -/
def flag? : Item → Option Bool
  | .boolean b => some b
  | _ => none

/-- A number that is not negative. -/
def count? : Item → Option Nat
  | .integer n => if 0 ≤ n then some n.toNat else none
  | _ => none

/-- A text. -/
def text? : Item → Option String
  | .text s => some s
  | _ => none

/-- Read a setting of a section, or take the default. -/
def read {α : Type} (section? : Option Item) (name : String) (place : Nat)
    (reader : Item → Option α) (default : α) : Option α :=
  match section? with
  | none => some default
  | some item =>
    match setting? name place item with
    | none => none
    | some none => some default
    | some (some item) => reader item

/-- The settings of a table. -/
def ofEntries? (es : Entries) : Option Config := do
  let nesting := es.lookup "nesting"
  let workers := es.lookup "workers"
  let paths := es.lookup "paths"
  let unbounded ← read nesting "unbounded" 0 flag? false
  let statements ← read nesting "statements" 1 count? 2
  let declarations ← read nesting "declarations" 2 count? 1
  let threads ← read workers "threads" 0 (fun i => (count? i).map some) none
  let root ← read paths "root" 0 (fun i => (text? i).map some) none
  some { nesting := { unbounded, statements, declarations }, threads, root }

/-- The settings of a document. -/
def parse? (document : String) : Option Config :=
  (Toml.parse? document).bind ofEntries?

/-- The nesting limits that the settings ask for. -/
def limits (c : Config) : Limits :=
  if c.nesting.unbounded then .unbounded
  else { statements := some c.nesting.statements, declarations := some c.nesting.declarations }

end Config

/-- Why the settings of a file cannot be used. -/
inductive ConfigError where
  /-- The file cannot be read, or is no text. -/
  | unreadable (path : String)
  /-- The text is no document, or has settings of the wrong type. -/
  | invalid (path : String)
  deriving DecidableEq, Inhabited

/-- The text of the error. -/
def ConfigError.message : ConfigError → String
  | unreadable path => s!"Failed to read config {path}"
  | invalid path => s!"Invalid config {path}"

namespace FileSystem

/-- The settings of the file at a path. -/
def loadConfig (fs : FileSystem) (path : String) : Except ConfigError Config :=
  match fs.readText? path with
  | none => .error (.unreadable path)
  | some document =>
    match Config.parse? document with
    | none => .error (.invalid path)
    | some config => .ok config

/-- The settings of the file at a path, or the defaults if there is none. -/
def loadConfigOrDefault (fs : FileSystem) (path : String) : Except ConfigError Config :=
  if fs.isThere path then fs.loadConfig path else .ok {}

/-- The workspace that the settings name, or that of the current folder.  The current folder
may have been removed. -/
def workspace? (fs : FileSystem) (config : Config) : Option Workspace :=
  match config.root with
  | some root => some { root }
  | none => if (fs.top.get? fs.home).isSome then some { root := fs.homePath } else none

end FileSystem

end Arbor
