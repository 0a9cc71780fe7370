import Arbor.Config
import Arbor.Export

/-!
# Command-line options

The arguments of a command are read from left to right.  An option has a long name, and
most have a letter.  The letters of several options may share one argument.  The value of
an option is the rest of its argument, with or without a sign of equality, or the next
argument; in the latter case it must not look like an option.  The first argument that
cannot be read makes the whole command unusable, and a request for the version or for
help is granted as soon as it is reached.

## Main declarations

* `Options`: what a command asks for.
* `Command.Request`: a conversion, the version or help.
* `Command.parse?`: the request of a list of arguments.
-/

namespace Arbor

/-- What a command asks for. -/
structure Options where
  /-- Files to convert. -/
  inputs : List String := []
  /-- Folders to look for files in. -/
  folders : List String := []
  /-- Where to write the export; to standard output if there is none. -/
  output : Option String := none
  format : Option Format := none
  /-- The file with the settings. -/
  config : Option String := none
  /-- Rebuild every level of nesting. -/
  unbounded : Bool := false
  /-- The number of workers. -/
  jobs : Option Nat := none
  /-- How many times more detail was asked for. -/
  verbosity : Nat := 0
  deriving DecidableEq, Inhabited

namespace Command

/-- An option. -/
inductive Switch where
  | input
  | folder
  | output
  | format
  | config
  | unbounded
  | jobs
  | verbose
  | help
  | version
  deriving DecidableEq, Inhabited

namespace Switch

/-- Every option. -/
def all : List Switch :=
  [input, folder, output, format, config, unbounded, jobs, verbose, help, version]

/-- The long name of an option. -/
def name : Switch → String
  | input => "input"
  | folder => "folder"
  | output => "output"
  | format => "format"
  | config => "config"
  | unbounded => "unbounded"
  | jobs => "jobs"
  | verbose => "verbose"
  | help => "help"
  | version => "version"

/-- The letter of an option. -/
def letter? : Switch → Option Char
  | input => some 'i'
  | folder => some 'd'
  | output => some 'o'
  | format => some 'f'
  | config => some 'c'
  | unbounded => none
  | jobs => some 'j'
  | verbose => some 'v'
  | help => some 'h'
  | version => some 'V'

/-- Whether an option has a value. -/
def takesValue : Switch → Bool
  | input | folder | output | format | config | jobs => true
  | unbounded | verbose | help | version => false

/-- The option with the given long name. -/
def ofName? (s : String) : Option Switch :=
  all.find? (·.name == s)

/-- The option with the given letter. -/
def ofLetter? (c : Char) : Option Switch :=
  all.find? (·.letter? == some c)

end Switch

/-- What the arguments ask for. -/
inductive Request where
  | convert (options : Options)
  | version
  | help
  deriving DecidableEq, Inhabited

/-- A number of workers: digits, possibly behind a plus sign, that fit 64 bits. -/
def count? (s : String) : Option Nat :=
  let digits :=
    match s.toList with
    | '+' :: rest => rest
    | cs => cs
  if digits ≠ [] ∧ digits.all Toml.isDigit then
    let n := Toml.ofDigits 10 (digits.filterMap (Toml.digitValue? 10))
    if n < 0x10000000000000000 then some n else none
  else none

/-- Take in an option with its value.  Only inputs and folders may be given more than once,
and no path may be empty. -/
def setValue? (o : Options) (s : Switch) (value : String) : Option Options :=
  match s with
  | .input => if value = "" then none else some { o with inputs := o.inputs ++ [value] }
  | .folder => if value = "" then none else some { o with folders := o.folders ++ [value] }
  | .output => if o.output.isSome then none else some { o with output := some value }
  | .format =>
    if o.format.isSome then none
    else (Format.ofName? value).map fun f => { o with format := some f }
  | .config =>
    if o.config.isSome ∨ value = "" then none else some { o with config := some value }
  | .jobs =>
    if o.jobs.isSome then none else (count? value).map fun n => { o with jobs := some n }
  | _ => none

/-- Take in an option without a value. -/
def setFlag? (o : Options) : Switch → Option Options
  | .unbounded => if o.unbounded then none else some { o with unbounded := true }
  | .verbose => some { o with verbosity := o.verbosity + 1 }
  | _ => none

/-- Whether an argument may be the value of the option before it. -/
def isValue (arg : String) : Bool :=
  arg = "-" || arg.toList.head? != some '-'

/-- What reading one argument leaves to be done. -/
inductive Step where
  /-- Go on with the next argument. -/
  | proceed (options : Options)
  /-- The next argument is the value of the option. -/
  | await (options : Options) (s : Switch)
  /-- Grant the request at once. -/
  | grant (request : Request)

/-- Read an option by its long name, with the value behind the sign of equality if there
is one. -/
def readLong? (o : Options) (name : String) (value? : Option String) : Option Step := do
  let s ← Switch.ofName? name
  match s, value? with
  | .version, none => some (.grant .version)
  | .help, none => some (.grant .help)
  | s, none => if s.takesValue then some (.await o s) else (setFlag? o s).map .proceed
  | s, some value => (setValue? o s value).map .proceed

/-- Read options by their letters. -/
def readLetters? (o : Options) : List Char → Option Step
  | [] => some (.proceed o)
  | c :: rest => do
    match ← Switch.ofLetter? c with
    | .version => some (.grant .version)
    | .help => some (.grant .help)
    | s =>
      if s.takesValue then
        match rest with
        | [] => some (.await o s)
        | '=' :: value => (setValue? o s (String.ofList value)).map .proceed
        | value => (setValue? o s (String.ofList value)).map .proceed
      else readLetters? (← setFlag? o s) rest

/-- Read one argument that begins with a dash. -/
def readArgument? (o : Options) (arg : String) : Option Step :=
  match arg.toList with
  | '-' :: '-' :: cs =>
    let name := String.ofList (cs.takeWhile (· != '='))
    match cs.dropWhile (· != '=') with
    | [] => readLong? o name none
    | _ :: value => readLong? o name (some (String.ofList value))
  | '-' :: c :: cs => readLetters? o (c :: cs)
  | _ => none

/-- Read the arguments that follow the given options. -/
def readArguments? (o : Options) : List String → Option Request
  | [] => some (.convert o)
  | "--" :: rest => if rest = [] then some (.convert o) else none
  | arg :: rest =>
    match readArgument? o arg, rest with
    | none, _ => none
    | some (.proceed o), rest => readArguments? o rest
    | some (.grant request), _ => some request
    | some (.await _ _), [] => none
    | some (.await o s), value :: rest =>
      if isValue value then
        match setValue? o s value with
        | none => none
        | some o => readArguments? o rest
      else none

/-- What the arguments of a command ask for; none if they cannot be used. -/
def parse? (args : List String) : Option Request :=
  readArguments? {} args

end Command

end Arbor
