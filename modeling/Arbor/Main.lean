import Arbor.Command.Run

/-!
# The program

The program takes a snapshot of the files that its arguments name, runs the command on
the snapshot, prints what the command prints, and writes the file that the command has
written.
-/

namespace Arbor

namespace Snapshot

/-- What is at a path on disk.  What cannot be read counts as locked. -/
partial def load? (path : String) : IO (Option Entry) := do
  let place := (← IO.currentDir) / path
  if ← place.isDir then
    match ← place.readDir.toBaseIO with
    | .error _ => return some (.locked true)
    | .ok listed =>
      let entries ← listed.toList.filterMapM fun e => do
        return (← load? (Path.join path e.fileName)).map fun entry => (e.fileName, entry)
      return some (.folder entries)
  else if ← place.pathExists then
    match ← (IO.FS.readBinFile place).toBaseIO with
    | .error _ => return some (.locked false)
    | .ok content => return some (.file content.data.toList)
  else
    return none

/-- The paths that a path leads through, itself last. -/
def stages (path : String) : List String :=
  let segments := Path.segments path
  let stage := fun n => String.intercalate "/" (segments.take (n + 1))
  ((List.range segments.length).map stage).filter (· ≠ "")

/-- Add what a path on disk leads through, folders without what is in them. -/
def addWay (fs : FileSystem) (path : String) : IO FileSystem := do
  let mut fs := fs
  for stage in stages path do
    if ← ((← IO.currentDir) / stage).isDir then
      fs := (fs.makeFolder stage).toOption.getD fs
    else if let some entry ← load? stage then
      fs := fs.insert stage entry
  return fs

/-- Add what is at a path on disk. -/
def add (fs : FileSystem) (path : String) : IO FileSystem := do
  let fs ← addWay fs path
  match ← load? path with
  | some entry => return fs.insert path entry
  | none => return fs

/-- The current folder, with nothing in it. -/
def empty : IO FileSystem := do
  let home := (Path.segments (← IO.currentDir).toString).filter (· ≠ "")
  return { top := Entry.put (.folder []) home (.folder []), home }

/-- Everything on disk that a command looks at. -/
def ofOptions (o : Options) : IO FileSystem := do
  let config := o.config.getD Config.defaultFile
  let mut fs ← add (← empty) config
  for path in o.inputs ++ o.folders do
    fs ← add fs path
  if o.inputs.isEmpty && o.folders.isEmpty then
    if let .ok config := fs.loadConfigOrDefault config then
      if let some workspace := fs.workspace? config then
        fs ← add fs workspace.files
  if let some path := o.output then
    fs ← addWay fs path
  return fs

end Snapshot

/-- The machine as far as the snapshot knows it.  All inputs are converted one after the other,
so there is no pool that could fail to start. -/
def Machine.sequential : Machine where
  cores := 1
  startPool _ := .ok ()

/-- Run a command on the disk, and give its exit code. -/
def program (args : List String) : IO UInt32 := do
  let options? :=
    match Command.parse? args with
    | some (.convert o) => some o
    | _ => none
  let before ← options?.elim Snapshot.empty Snapshot.ofOptions
  let (exit, after) := Command.execute .sequential before args
  if exit.code = 2 then
    IO.eprint Command.helpText
  IO.print exit.stdout
  for warning in exit.warnings do
    IO.eprintln s!"WARN {warning}"
  if let some path := options?.bind (·.output) then
    if let .ok content := after.read path then
      if (before.read path).toOption ≠ some content then
        IO.FS.writeBinFile path (ByteArray.mk content.toArray)
  if let some error := exit.error then
    IO.eprintln s!"Error: {error}"
  return UInt32.ofNat exit.code

end Arbor

/-- The entry point of the executable. -/
def main (args : List String) : IO UInt32 :=
  Arbor.program args
