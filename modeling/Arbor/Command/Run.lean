import Arbor.Batch
import Arbor.Command.Options
import Arbor.Scan

/-!
# Running a command

A command loads the settings, gathers the inputs, starts a pool of workers, converts the
inputs and exports those that could be converted.  Nothing is written before all inputs are
known; files that fail are left out of the export and make the command fail in the end.
Standard output is taken to accept everything that is printed.

## Main declarations

* `Command.Failure`: why a command fails.
* `Command.run`: what a command prints and writes.
* `Command.execute`: the same for a list of arguments, with the exit code.
-/

namespace Arbor.Command

/-- Why a command fails. -/
inductive Failure where
  | config (cause : ConfigError)
  /-- The workspace is that of the current folder, and there is none. -/
  | noCurrentFolder
  | scan (cause : ScanError)
  /-- There is nothing to convert. -/
  | noInput
  /-- The pool of workers cannot be started. -/
  | pool (message : String)
  /-- The export cannot be made or written. -/
  | output (cause : ExportError)
  /-- Some of the inputs were not converted. -/
  | partially (failed total : Nat)
  deriving DecidableEq, Inhabited

/-- The text of a failure. -/
def Failure.message : Failure → String
  | config cause => cause.message
  | noCurrentFolder => "Failed to resolve the current directory"
  | scan cause => cause.message
  | noInput => "No serialized AST files found; pass --input <file> or --folder <dir>"
  | pool message => message
  | output cause => cause.message
  | partially failed total => s!"{failed} of {total} files failed to convert"

/-- What a command has printed, and whether it has failed. -/
structure Outcome where
  stdout : String := ""
  warnings : List String := []
  failure : Option Failure := none
  deriving DecidableEq, Inhabited

/-- The serialized files found in a folder. -/
def gather (fs : FileSystem) (folder : String) : Except Failure (List String) :=
  (fs.gather folder).mapError .scan

/-- The files that a command converts: the given files, then those found in the given
folders; without either, those of the workspace. -/
def inputs (fs : FileSystem) (o : Options) (config : Config) :
    Except Failure (List String) := do
  if o.inputs = [] ∧ o.folders = [] then
    match fs.workspace? config with
    | none => .error .noCurrentFolder
    | some workspace => gather fs workspace.files
  else
    let found ← o.folders.mapM (gather fs)
    return o.inputs ++ found.flatten

/-- The nesting limits of a command. -/
def limits (o : Options) (config : Config) : Limits :=
  if o.unbounded then .unbounded else config.limits

/-- The failure of a command that has converted a batch. -/
def verdict (report : Batch.Report) (total : Nat) : Option Failure :=
  if report.failed = 0 then none else some (.partially report.failed total)

/-- Convert and export the files at the given paths. -/
def exportAll (fs : FileSystem) (o : Options) (limits : Limits) (paths : List String) :
    Outcome × FileSystem :=
  let exporter := (o.format.getD .outline).exporter
  match o.output with
  | none =>
    match fs.render limits exporter paths with
    | (.error message, report) =>
      ({ warnings := report.warnings, failure := some (.output (.unrendered message)) }, fs)
    | (.ok text, report) =>
      ({ stdout := text, warnings := report.warnings, failure := verdict report paths.length }, fs)
  | some path =>
    match fs.run limits exporter paths path with
    | (.error e, report, fs) =>
      ({ warnings := report.warnings, failure := some (.output e) }, fs)
    | (.ok (), report, fs) =>
      ({ warnings := report.warnings, failure := verdict report paths.length }, fs)

/-- Start the workers that a command asks for, or its settings, or neither. -/
def startWorkers (machine : Machine) (o : Options) (config : Config) : Except String Unit :=
  machine.startPool (machine.workers (o.jobs.or config.threads))

/-- Carry out a command. -/
def run (machine : Machine) (fs : FileSystem) (o : Options) : Outcome × FileSystem :=
  match fs.loadConfigOrDefault (o.config.getD Config.defaultFile) with
  | .error e => ({ failure := some (.config e) }, fs)
  | .ok config =>
    match inputs fs o config with
    | .error e => ({ failure := some e }, fs)
    | .ok [] => ({ failure := some .noInput }, fs)
    | .ok paths =>
      match startWorkers machine o config with
      | .error message => ({ failure := some (.pool message) }, fs)
      | .ok () => exportAll fs o (limits o config) paths

/-! ### The whole program -/

/-- What is printed for a request of the version. -/
def versionText : String := "treewalk 0.1.0\n"

/-- What is printed for a request of help. -/
def helpText : String :=
  "Usage: treewalk [OPTIONS]\n\n" ++
  "Options:\n" ++
  "  -i, --input <INPUT>    Serialized AST file (can specify multiple)\n" ++
  "  -d, --folder <FOLDER>  Folder(s) scanned for serialized AST files\n" ++
  "  -o, --output <OUTPUT>  Output file path (stdout when omitted)\n" ++
  "  -f, --format <FORMAT>  Output format: json, outline or stats [default: outline]\n" ++
  "  -c, --config <CONFIG>  Config file [default: treewalk.toml]\n" ++
  "      --unbounded        Rebuild every nesting level instead of applying depth limits\n" ++
  "  -j, --jobs <JOBS>      Worker threads (defaults to half the cores)\n" ++
  "  -v, --verbose...       Increase log verbosity (-v, -vv)\n" ++
  "  -h, --help             Print help\n" ++
  "  -V, --version          Print version\n"

/-- What a program leaves behind besides files. -/
structure Exit where
  code : Nat := 0
  stdout : String := ""
  error : Option String := none
  warnings : List String := []
  deriving DecidableEq, Inhabited

/-- The exit of a command that was carried out. -/
def Outcome.exit (r : Outcome) : Exit where
  code := if r.failure.isNone then 0 else 1
  stdout := r.stdout
  error := r.failure.map Failure.message
  warnings := r.warnings

/-- Run the program with the given arguments.  Arguments that cannot be used have an exit
code of their own. -/
def execute (machine : Machine) (fs : FileSystem) (args : List String) : Exit × FileSystem :=
  match parse? args with
  | none => ({ code := 2 }, fs)
  | some .version => ({ stdout := versionText }, fs)
  | some .help => ({ stdout := helpText }, fs)
  | some (.convert o) =>
    let (outcome, fs) := run machine fs o
    (outcome.exit, fs)

end Arbor.Command
