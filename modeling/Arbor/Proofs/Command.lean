import Arbor.Command.Run
import Arbor.Node.Equality
import Arbor.Proofs.Arguments
import Arbor.Proofs.Batch
import Arbor.Proofs.Config
import Arbor.Proofs.Toml

/-!
# What a command comes to

A command succeeds exactly if its settings can be loaded, all folders can be searched, there is
something to convert, the output can be written, and every input converts
(`Command.execute_outcome`).  Inputs that do not convert make the command fail, but only after
everything else has been exported.  Any other failure comes before anything is printed or written,
except that an output with too little room may be lost.

`Command.Prepared` gathers the conditions that come before the conversion.  The machine is taken to
start the workers; if it does not, nothing is printed or written either
(`Command.execute_of_pool_error`).
-/

namespace Arbor

/-- A list of results is had exactly if all of them are. -/
lemma mapM_eq_ok_iff {ε α β : Type} {f : α → Except ε β} {as : List α} {bs : List β} :
    as.mapM f = .ok bs ↔ List.Forall₂ (fun a b => f a = .ok b) as bs := by
  induction as generalizing bs with
  | nil => simp [pure, Except.pure, eq_comm]
  | cons a as ih =>
    rw [List.mapM_cons, List.forall₂_cons_left_iff]
    simp only [← ih]
    rcases f a with e | b
    · simp [bind, Except.bind]
    · rcases as.mapM f with e | bs' <;> simp [bind, Except.bind, pure, Except.pure, eq_comm]

/-- On this machine, a pool can be started with any number of workers. -/
def Machine.StartsPools (machine : Machine) : Prop :=
  ∀ workers, 0 < workers → machine.startPool workers = .ok ()

/-- There is always a worker. -/
lemma Machine.workers_pos (machine : Machine) (requested : Option Nat) :
    0 < machine.workers requested := by
  rw [workers]
  rcases hrequested : requestedWorkers? requested with _ | n
  · exact Nat.lt_of_lt_of_le Nat.zero_lt_one (Nat.le_max_left ..)
  · exact (by simpa using (Option.filter_eq_some_iff.mp hrequested).2 : 0 < n)

namespace Command

/-! ### Before the conversion -/

/-- The folder of the workspace: the one that the settings name, or the current folder, if it is
there. -/
inductive WorkspaceRoot (fs : FileSystem) (config : Config) : String → Prop where
  | named {root : String} : config.root = some root → WorkspaceRoot fs config root
  | current : config.root = none → (fs.look fs.home).isSome = true →
      WorkspaceRoot fs config ("/" ++ String.intercalate "/" fs.home)

/-- The path of the folder `files` in a folder. -/
def filesBelow (root : String) : String :=
  if root = "" ∨ root.toList.getLast? = some '/' then root ++ "files" else root ++ "/files"

/-- The folders that a command looks for files in: the given ones, or the folder `files` of the
workspace if neither files nor folders are given. -/
inductive Searches (fs : FileSystem) (o : Options) (config : Config) : List String → Prop where
  | given : ¬ (o.inputs = [] ∧ o.folders = []) → Searches fs o config o.folders
  | workspace {root : String} : o.inputs = [] ∧ o.folders = [] → WorkspaceRoot fs config root →
      Searches fs o config [filesBelow root]

/-- Everything before the conversion goes well: the settings are loaded, all folders are searched,
and there is something to convert. -/
structure Prepared (fs : FileSystem) (o : Options) (config : Config) (limits : Limits)
    (paths : List String) : Prop where
  settings : fs.Settles (o.config.getD "treewalk.toml") config
  limits_eq : limits = if o.unbounded ∨ config.nesting.unbounded then .unbounded else
    { statements := some config.nesting.statements
      declarations := some config.nesting.declarations }
  /-- The given files come first, then those that are found. -/
  inputs : ∃ folders found, Searches fs o config folders ∧
    List.Forall₂ (fun folder files => fs.gather folder = .ok files) folders found ∧
    paths = o.inputs ++ found.flatten
  ne_nil : paths ≠ []

variable {machine : Machine} {fs : FileSystem} {o : Options} {config : Config} {limits : Limits}
  {paths : List String}

/-- A folder is searched if the scan of it succeeds. -/
lemma gather_eq_ok_iff {folder : String} {files : List String} :
    gather fs folder = .ok files ↔ fs.gather folder = .ok files := by
  rw [gather]
  rcases fs.gather folder with e | found <;> simp [Except.mapError]

/-- The workspace is that of the folder of the workspace. -/
lemma workspace?_eq_some_iff {workspace : Workspace} :
    fs.workspace? config = some workspace ↔ WorkspaceRoot fs config workspace.root := by
  have hhome : (fs.look fs.home).isSome = (fs.top.get? fs.home).isSome := Option.isSome_map
  constructor
  · intro h
    rw [FileSystem.workspace?] at h
    split at h
    · rename_i hroot
      cases h
      exact .named hroot
    · rename_i hroot
      split_ifs at h with hthere
      cases h
      exact .current hroot (hhome.trans hthere)
  · intro h
    rcases workspace with ⟨root⟩
    rcases h with hroot | ⟨hroot, hthere⟩
    · simp only [FileSystem.workspace?, hroot]
    · simp only [FileSystem.workspace?, hroot, ← hhome, hthere, if_true]
      rfl

/-- Serialized files are kept in the folder `files`. -/
lemma files_eq (workspace : Workspace) : workspace.files = filesBelow workspace.root := by
  have hslash : "/" ++ "files" = "/files" := by decide
  rw [Workspace.files, Path.join, filesBelow, String.append_assoc, hslash]

/-- The inputs of a command are the given files and those that are found. -/
lemma inputs_eq_ok_iff : inputs fs o config = .ok paths ↔
    ∃ folders found, Searches fs o config folders ∧
      List.Forall₂ (fun folder files => fs.gather folder = .ok files) folders found ∧
      paths = o.inputs ++ found.flatten := by
  by_cases hnone : o.inputs = [] ∧ o.folders = []
  · simp only [inputs, if_pos hnone]
    constructor
    · intro h
      rcases hworkspace : fs.workspace? config with _ | workspace
      · simp [hworkspace] at h
      · rw [hworkspace] at h
        have hgather := gather_eq_ok_iff.mp h
        rw [files_eq] at hgather
        refine ⟨_, [paths], .workspace hnone (workspace?_eq_some_iff.mp hworkspace),
          .cons hgather .nil, by simp [hnone.1]⟩
    · rintro ⟨folders, found, hsearches, hfound, rfl⟩
      rcases hsearches with hgiven | @⟨root, -, hroot⟩
      · exact absurd hnone hgiven
      · obtain ⟨files, _, hgather, hnil, rfl⟩ := List.forall₂_cons_left_iff.mp hfound
        cases hnil
        have hworkspace : fs.workspace? config = some { root } :=
          workspace?_eq_some_iff.mpr hroot
        simp only [hworkspace, files_eq]
        simpa [hnone.1] using gather_eq_ok_iff.mpr hgather
  · have hmapM : ∀ found, o.folders.mapM (gather fs) = .ok found ↔
        List.Forall₂ (fun folder files => fs.gather folder = .ok files) o.folders found := by
      intro found
      simp only [mapM_eq_ok_iff, gather_eq_ok_iff]
    have hinputs : inputs fs o config = .ok paths ↔
        ∃ found, o.folders.mapM (gather fs) = .ok found ∧ paths = o.inputs ++ found.flatten := by
      simp only [inputs, if_neg hnone]
      rcases o.folders.mapM (gather fs) with e | found
      · simp [bind, Except.bind]
      · simp [bind, Except.bind, pure, Except.pure, eq_comm]
    rw [hinputs]
    constructor
    · rintro ⟨found, hfound, rfl⟩
      exact ⟨_, found, .given hnone, (hmapM found).mp hfound, rfl⟩
    · rintro ⟨folders, found, hsearches, hfound, rfl⟩
      rcases hsearches with hgiven | ⟨hboth, -⟩
      · exact ⟨found, (hmapM found).mpr hfound, rfl⟩
      · exact absurd hboth hnone

/-- The limits of a command. -/
lemma limits_eq_ite (o : Options) (config : Config) :
    Command.limits o config = if o.unbounded ∨ config.nesting.unbounded then .unbounded else
      { statements := some config.nesting.statements
        declarations := some config.nesting.declarations } := by
  rw [Command.limits, Config.limits]
  grind

/-- The workers of a command can be started. -/
lemma startWorkers_eq_ok (hpool : machine.StartsPools) (o : Options) (config : Config) :
    startWorkers machine o config = .ok () :=
  hpool _ (machine.workers_pos _)

/-- A command that is well prepared starts its workers, and converts and exports its inputs if it
has got them. -/
lemma run_of_prepared (h : Prepared fs o config limits paths) (machine : Machine) :
    run machine fs o =
      match startWorkers machine o config with
      | .error message => ({ failure := some (.pool message) }, fs)
      | .ok () => exportAll fs o limits paths := by
  have hconfig : fs.loadConfigOrDefault (o.config.getD Config.defaultFile) = .ok config :=
    FileSystem.loadConfigOrDefault_eq_ok_iff.mpr h.settings
  have hinputs := inputs_eq_ok_iff.mpr h.inputs
  obtain ⟨path, rest, rfl⟩ := List.exists_cons_of_ne_nil h.ne_nil
  rw [h.limits_eq, ← limits_eq_ite]
  rcases hstart : startWorkers machine o config with message | _ <;>
    simp only [run, hconfig, hinputs, hstart]

/-- A command that is not prepared does nothing but fail. -/
lemma run_of_not_prepared (h : ∀ config limits paths, ¬ Prepared fs o config limits paths)
    (machine : Machine) : ∃ failure, run machine fs o = ({ failure := some failure }, fs) := by
  rcases hconfig : fs.loadConfigOrDefault (o.config.getD Config.defaultFile) with e | config
  · exact ⟨.config e, by simp only [run, hconfig]⟩
  rcases hinputs : inputs fs o config with e | (_ | ⟨path, paths⟩)
  · exact ⟨e, by simp only [run, hconfig, hinputs]⟩
  · exact ⟨.noInput, by simp only [run, hconfig, hinputs]⟩
  · have hprepared : Prepared fs o config _ (path :: paths) :=
      ⟨FileSystem.loadConfigOrDefault_eq_ok_iff.mp hconfig, rfl, inputs_eq_ok_iff.mp hinputs,
        List.cons_ne_nil _ _⟩
    exact absurd hprepared (h _ _ _)

/-! ### Exporting -/

/-- The text of an export can be written as a whole: the output of the command can be opened, if
there is one, and there is enough room if it is a file. -/
def CanWrite (fs : FileSystem) (o : Options) (text : String) : Prop :=
  ∀ output ∈ o.output, ∃ place, fs.Opens output place ∧
    (fs.look place = some .sink ∨ fs.Fits place (bytesOf text))

/-- A text is delivered: it is printed, or it is the content of the output and nothing else is
changed.  If the output is a device, nothing is changed at all. -/
def Delivers (fs : FileSystem) (o : Options) (text : String) (stdout : String)
    (fs' : FileSystem) : Prop :=
  match o.output with
  | none => stdout = text ∧ fs' = fs
  | some output => stdout = "" ∧ ∃ place, fs.Opens output place ∧
      if fs.look place = some .sink then fs' = fs
      else fs'.Revises fs place (bytesOf text) ∧ fs'.read output = .ok (bytesOf text)

/-- What is said about inputs that do not convert. -/
def complaint (failed total : Nat) : Option String :=
  if failed = 0 then none else some s!"{failed} of {total} files failed to convert"

/-- The text of the export of a batch. -/
def textOf (fs : FileSystem) (o : Options) (limits : Limits) (paths : List String) : String :=
  Export.render (o.format.getD .outline) (fs.convertBatch limits paths).files

/-- Without an output, the export is printed. -/
lemma exportAll_of_none (fs : FileSystem) (h : o.output = none) (limits : Limits)
    (paths : List String) :
    exportAll fs o limits paths =
      ({ stdout := textOf fs o limits paths
         warnings := (fs.convertBatch limits paths).warnings
         failure := verdict (fs.convertBatch limits paths) paths.length }, fs) := by
  simp only [exportAll, h]
  rfl

/-- With an output, the export is written to it. -/
lemma exportAll_of_some (fs : FileSystem) {output : String} (h : o.output = some output)
    (limits : Limits) (paths : List String) :
    ∃ result fs', fs.Writes output (textOf fs o limits paths) (result, fs') ∧
      exportAll fs o limits paths =
        ({ warnings := (fs.convertBatch limits paths).warnings
           failure := match result with
             | .error e => some (.output e)
             | .ok () => verdict (fs.convertBatch limits paths) paths.length }, fs') := by
  have hrun : fs.run limits (o.format.getD .outline).exporter paths output = _ :=
    FileSystem.run_of_ok rfl
  refine ⟨_, _, fs.writes_write output (textOf fs o limits paths), ?_⟩
  simp only [exportAll, h, hrun]
  rw [← textOf]
  rcases fs.write output (bytesOf (textOf fs o limits paths)) with ⟨_ | _, fs'⟩ <;> rfl

/-- If the text can be written, it is delivered, and only inputs that do not convert are a
failure. -/
lemma exportAll_of_canWrite (h : CanWrite fs o (textOf fs o limits paths)) :
    ∃ r fs', exportAll fs o limits paths = (r, fs') ∧
      Delivers fs o (textOf fs o limits paths) r.stdout fs' ∧
      r.failure = verdict (fs.convertBatch limits paths) paths.length := by
  rcases houtput : o.output with _ | output
  · refine ⟨_, fs, exportAll_of_none fs houtput limits paths, ?_, rfl⟩
    simp [Delivers, houtput]
  · obtain ⟨place, hopens, hwrite⟩ := h output houtput
    obtain ⟨result, fs', hwrites, hexport⟩ := exportAll_of_some fs houtput limits paths
    by_cases hsink : fs.look place = some .sink
    · obtain ⟨rfl, rfl⟩ := Prod.mk.inj (hwrites.swallowed place hopens hsink)
      refine ⟨_, fs', hexport, ?_, rfl⟩
      simp only [Delivers, houtput, true_and]
      exact ⟨place, hopens, by simp [hsink]⟩
    · have hfree := hopens.leads.exists_folder.2.resolve_right hsink
      obtain ⟨fs'', heq, hrevises, hread⟩ :=
        hwrites.whole place hopens hfree (hwrite.resolve_left hsink)
      obtain ⟨rfl, rfl⟩ := Prod.mk.inj heq
      refine ⟨_, fs', hexport, ?_, rfl⟩
      simp only [Delivers, houtput, true_and]
      exact ⟨place, hopens, by rw [if_neg hsink]; exact ⟨hrevises, hread⟩⟩

/-- If the text cannot be written as a whole, nothing is printed, and the command fails.  Nothing is
changed if the output cannot be opened. -/
lemma exportAll_of_not_canWrite (h : ¬ CanWrite fs o (textOf fs o limits paths)) :
    ∃ r fs' e, exportAll fs o limits paths = (r, fs') ∧ r.stdout = "" ∧
      r.failure = some (.output e) ∧
      ((∀ output ∈ o.output, ∀ place, ¬ fs.Opens output place) → fs' = fs) := by
  simp only [CanWrite, not_forall, not_exists, not_and, not_or] at h
  obtain ⟨output, houtput, hwrite⟩ := h
  obtain ⟨result, fs', hwrites, hexport⟩ :=
    exportAll_of_some fs (Option.mem_def.mp houtput) limits paths
  by_cases hopens : ∃ place, fs.Opens output place
  · obtain ⟨place, hopens⟩ := hopens
    obtain ⟨hsink, hfits⟩ := hwrite place hopens
    have hfree := hopens.leads.exists_folder.2.resolve_right hsink
    obtain ⟨room, fs'', -, -, heq, -⟩ := hwrites.cut place hopens hfree hfits
    obtain ⟨rfl, rfl⟩ := Prod.mk.inj heq
    exact ⟨_, _, _, hexport, rfl, rfl, fun hnone => absurd hopens (hnone output houtput place)⟩
  · obtain ⟨e, heq⟩ := hwrites.refused (not_exists.mp hopens)
    obtain ⟨rfl, rfl⟩ := Prod.mk.inj heq
    exact ⟨_, _, _, hexport, rfl, rfl, fun _ => rfl⟩

/-! ### The whole program -/

/-- A conversion is carried out. -/
lemma execute_of_convert {args : List String} (hargs : parse? args = some (.convert o))
    (machine : Machine) (fs : FileSystem) :
    execute machine fs args = ((run machine fs o).1.exit, (run machine fs o).2) := by
  simp only [execute, hargs]

/-- A command that is well prepared and can write its output delivers the export of the inputs that
convert, and counts the others. -/
lemma execute_of_prepared {args : List String} (hargs : parse? args = some (.convert o))
    (hpool : machine.StartsPools) (hprepared : Prepared fs o config limits paths)
    (hwrite : CanWrite fs o (textOf fs o limits paths)) :
    Delivers fs o (textOf fs o limits paths) (execute machine fs args).1.stdout
        (execute machine fs args).2 ∧
      (execute machine fs args).1.code = (if fs.inconvertible limits paths = [] then 0 else 1) ∧
      (execute machine fs args).1.error =
        complaint (fs.inconvertible limits paths).length paths.length := by
  obtain ⟨r, fs', hexport, hdelivers, hfailure⟩ := exportAll_of_canWrite hwrite
  rw [execute_of_convert hargs, run_of_prepared hprepared, startWorkers_eq_ok hpool, hexport]
  refine ⟨hdelivers, ?_⟩
  rw [verdict, FileSystem.failed_convertBatch] at hfailure
  by_cases hall : fs.inconvertible limits paths = []
  · simp [Outcome.exit, hfailure, complaint, hall]
  · simp [Outcome.exit, hfailure, complaint, hall, Failure.message]

/-- A command that cannot write its output prints nothing and fails, and it changes nothing if the
output cannot be opened. -/
lemma execute_of_not_canWrite {args : List String} (hargs : parse? args = some (.convert o))
    (hpool : machine.StartsPools) (hprepared : Prepared fs o config limits paths)
    (hwrite : ¬ CanWrite fs o (textOf fs o limits paths)) :
    (execute machine fs args).1.code = 1 ∧ (execute machine fs args).1.stdout = "" ∧
      ((∀ output ∈ o.output, ∀ place, ¬ fs.Opens output place) →
        (execute machine fs args).2 = fs) := by
  obtain ⟨r, fs', e, hexport, hstdout, hfailure, hsame⟩ := exportAll_of_not_canWrite hwrite
  rw [execute_of_convert hargs, run_of_prepared hprepared, startWorkers_eq_ok hpool, hexport]
  exact ⟨by simp [Outcome.exit, hfailure], hstdout, hsame⟩

/-- A command that is not prepared prints nothing and changes nothing. -/
lemma execute_of_not_prepared {args : List String} (hargs : parse? args = some (.convert o))
    (h : ∀ config limits paths, ¬ Prepared fs o config limits paths) (machine : Machine) :
    (execute machine fs args).1.code = 1 ∧ (execute machine fs args).1.stdout = "" ∧
      (execute machine fs args).2 = fs := by
  obtain ⟨failure, hrun⟩ := run_of_not_prepared h machine
  rw [execute_of_convert hargs, hrun]
  exact ⟨rfl, rfl, rfl⟩

/-- A command whose workers cannot be started says why, and prints and changes nothing. -/
theorem execute_of_pool_error {args : List String} (hargs : parse? args = some (.convert o))
    (hprepared : Prepared fs o config limits paths) {message : String}
    (hstart : startWorkers machine o config = .error message) :
    execute machine fs args = ({ code := 1, error := some message }, fs) := by
  rw [execute_of_convert hargs, run_of_prepared hprepared, hstart]
  rfl

/-- The text of an export is that of the inputs that convert. -/
lemma textOf_eq {files : List SourceFile}
    (h : List.Forall₂ (SourceFile.ComesFrom fs limits) (fs.convertible limits paths) files) :
    textOf fs o limits paths = Export.render (o.format.getD .outline) files := by
  have hunique : Relator.RightUnique (SourceFile.ComesFrom fs limits) := by
    rintro path ⟨name, root⟩ ⟨name', root'⟩ ⟨hname, hroot⟩ ⟨hname', hroot'⟩
    have hsame : root = root' := Except.ok.inj (hroot.symm.trans hroot')
    rw [SourceFile.mk.injEq]
    exact ⟨hname.trans hname'.symm, hsame⟩
  rw [textOf, hunique.forall₂ (fs.forall₂_files limits paths) h]

/-- Inputs that give files convert. -/
lemma converts_of_forall₂ {files : List SourceFile}
    (h : List.Forall₂ (SourceFile.ComesFrom fs limits) paths files) :
    ∀ path ∈ paths, fs.converts limits path = true := by
  induction h with
  | nil => exact fun _ hpath => nomatch hpath
  | cons hfile _ ih =>
    refine List.forall_mem_cons.mpr ⟨?_, ih⟩
    simp [FileSystem.converts, hfile.2, Except.isOk, Except.toBool]

/-- If all inputs convert, they are the convertible inputs. -/
lemma convertible_eq_self (h : ∀ path ∈ paths, fs.converts limits path = true) :
    fs.convertible limits paths = paths :=
  List.filter_eq_self.mpr h

/-- All inputs convert exactly if none is left over. -/
lemma inconvertible_eq_nil_iff :
    fs.inconvertible limits paths = [] ↔ ∀ path ∈ paths, fs.converts limits path = true := by
  simp [FileSystem.inconvertible, List.filter_eq_nil_iff]

/-- The options of a command are what its arguments say, and its settings are what its document
says; a document in plain form is read as it is written.  On a machine that starts pools of workers,
the command succeeds exactly if it is well prepared, its output can be written, and all its inputs
convert.  Whenever the first two hold, the export of the inputs that convert, in their order, is
printed or written as a whole, and the failure names the number of the others.  If the output cannot
be written, nothing is printed; if it cannot even be opened, the file system is left as it was.  If
the command is not well prepared, nothing is printed, and the file system is left as it was. -/
theorem execute_outcome (machine : Machine) (fs : FileSystem) {args : List String} {o : Options}
    (hargs : parse? args = some (.convert o)) (hpool : machine.StartsPools) :
    (∃ settings, Spells args settings ∧ Collects o settings) ∧
    (∀ document entries, Toml.Written document entries → Toml.parse? document = some entries) ∧
    ((execute machine fs args).1.code = 0 ↔
      ∃ config limits paths files, Prepared fs o config limits paths ∧
        List.Forall₂ (SourceFile.ComesFrom fs limits) paths files ∧
        CanWrite fs o (Export.render (o.format.getD .outline) files)) ∧
    (∀ config limits paths, Prepared fs o config limits paths →
      ∃ files, List.Forall₂ (SourceFile.ComesFrom fs limits) (fs.convertible limits paths) files ∧
        (CanWrite fs o (Export.render (o.format.getD .outline) files) →
          Delivers fs o (Export.render (o.format.getD .outline) files)
              (execute machine fs args).1.stdout (execute machine fs args).2 ∧
            (execute machine fs args).1.error =
              complaint (fs.inconvertible limits paths).length paths.length) ∧
        (¬ CanWrite fs o (Export.render (o.format.getD .outline) files) →
          (execute machine fs args).1.code = 1 ∧ (execute machine fs args).1.stdout = "" ∧
            ((∀ output ∈ o.output, ∀ place, ¬ fs.Opens output place) →
              (execute machine fs args).2 = fs))) ∧
    ((∀ config limits paths, ¬ Prepared fs o config limits paths) →
      (execute machine fs args).1.code = 1 ∧ (execute machine fs args).1.stdout = "" ∧
        (execute machine fs args).2 = fs) := by
  refine ⟨spells_of_parse? hargs, fun _ _ => Toml.parse?_of_written, ⟨fun hcode => ?_, ?_⟩,
    fun config limits paths hprepared => ?_, fun h => execute_of_not_prepared hargs h machine⟩
  · by_cases h : ∃ config limits paths, Prepared fs o config limits paths
    · obtain ⟨config, limits, paths, hprepared⟩ := h
      by_cases hwrite : CanWrite fs o (textOf fs o limits paths)
      · have hexit := (execute_of_prepared hargs hpool hprepared hwrite).2.1
        have hall : fs.inconvertible limits paths = [] := by
          by_contra hsome
          rw [hcode, if_neg hsome] at hexit
          exact absurd hexit (by decide)
        have hfiles := fs.forall₂_files limits paths
        rw [convertible_eq_self (inconvertible_eq_nil_iff.mp hall)] at hfiles
        exact ⟨config, limits, paths, _, hprepared, hfiles, hwrite⟩
      · have hexit := (execute_of_not_canWrite hargs hpool hprepared hwrite).1
        exact absurd (hcode.symm.trans hexit) (by decide)
    · simp only [not_exists] at h
      exact absurd (hcode.symm.trans (execute_of_not_prepared hargs h machine).1) (by decide)
  · rintro ⟨config, limits, paths, files, hprepared, hfiles, hwrite⟩
    have hconverts := converts_of_forall₂ hfiles
    have htext : textOf fs o limits paths = _ :=
      textOf_eq ((convertible_eq_self hconverts).symm ▸ hfiles)
    rw [← htext] at hwrite
    rw [(execute_of_prepared hargs hpool hprepared hwrite).2.1,
      if_pos (inconvertible_eq_nil_iff.mpr hconverts)]
  · refine ⟨_, fs.forall₂_files limits paths, fun hwrite => ?_, fun hwrite => ?_⟩
    · obtain ⟨hdelivers, -, herror⟩ := execute_of_prepared hargs hpool hprepared hwrite
      exact ⟨hdelivers, herror⟩
    · exact execute_of_not_canWrite hargs hpool hprepared hwrite

/-- A machine that starts every pool. -/
def willing : Machine where
  cores := 4
  startPool _ := .ok ()

/-- A current folder with settings, a file without content and a folder with a file that breaks off,
and a workspace somewhere else with such a file and one with declarations inside each other.  The
settings name the workspace and keep the outermost declarations only. -/
def configured : FileSystem where
  top := .folder [
    ("home", .folder [
      ("treewalk.toml",
        .file (bytesOf "[nesting]\ndeclarations = 0 # outermost\n\n[paths]\nroot = \"/srv\"\n")),
      ("a", .file []), ("d", .folder [("b.bin", .file [0x0a])])]),
    ("srv", .folder [("files", .folder [
      ("a.bin", .file [0x12, 0x06, 0x1a, 0x04, 0x3a, 0x02, 0x3a, 0x00]),
      ("b.bin", .file [0x0a])])])]
  home := ["home"]

/-- The settings of the current folder. -/
def configuredSettings : Config where
  nesting := { declarations := 0 }
  root := some "/srv"

/-- The settings are read from the file. -/
lemma settles_configured : configured.Settles "treewalk.toml" configuredSettings :=
  FileSystem.loadConfigOrDefault_eq_ok_iff.mp (by decide +kernel)

/-- Without files and folders, the inputs are those of the workspace. -/
lemma prepared_configured {unbounded : Bool} {limits : Limits}
    (h : limits = if unbounded then .unbounded
      else { statements := some 2, declarations := some 0 }) :
    Prepared configured { unbounded } configuredSettings limits
      ["/srv/files/a.bin", "/srv/files/b.bin"] where
  settings := settles_configured
  limits_eq := by simpa [configuredSettings] using h
  inputs := by
    have hscan : configured.scanWith (Path.maxSize + 1) "/srv/files" =
        .ok ["/srv/files/a.bin", "/srv/files/b.bin"] := by decide +kernel
    have hgather : configured.gather "/srv/files" =
        .ok ["/srv/files/a.bin", "/srv/files/b.bin"] := by
      rw [FileSystem.gather, hscan]
      exact congrArg Except.ok (List.mergeSort_of_pairwise (by decide +kernel))
    exact ⟨_, _, .workspace ⟨rfl, rfl⟩ (.named rfl), .cons hgather .nil, rfl⟩
  ne_nil := List.cons_ne_nil _ _

/-- The export of a single file that converts. -/
lemma render_of_single (path : String) {text : String} {files : List SourceFile}
    (h : List.Forall₂ (SourceFile.ComesFrom fs limits) (fs.convertible limits paths) files)
    (hpath : fs.convertible limits paths = [path])
    (htext : (fs.convertFile limits path).map (fun root => Export.outlines [{ path, root }]) =
      .ok text) : Export.render .outline files = text := by
  rw [hpath] at h
  obtain ⟨⟨_, root⟩, _, ⟨rfl, hroot⟩, hnil, rfl⟩ := List.forall₂_cons_left_iff.mp h
  cases hnil
  rw [hroot] at htext
  exact Except.ok.inj htext

/-- The command fails because of the file that breaks off, but the other one is exported.  Without
options it is cut as the settings say, and it is whole if no limits are wanted.  Given files and
folders take the place of the workspace, and the export may also be written. -/
theorem execute_outcome_configured :
    willing.StartsPools ∧
    (parse? [] = some (.convert {}) ∧
      (execute willing configured []).1.stdout =
        "== /srv/files/a.bin\nnamespace \n  OTHER \n" ∧
      (execute willing configured []).1.error = some "1 of 2 files failed to convert") ∧
    (parse? ["--unbounded"] = some (.convert { unbounded := true }) ∧
      (execute willing configured ["--unbounded"]).1.stdout =
        "== /srv/files/a.bin\nnamespace \n  OTHER \n    OTHER \n      OTHER \n" ∧
      (execute willing configured ["--unbounded"]).1.error =
        some "1 of 2 files failed to convert") ∧
    (parse? ["-ia", "-dd", "-oc"] =
        some (.convert { inputs := ["a"], folders := ["d"], output := some "c" }) ∧
      (execute willing configured ["-ia", "-dd", "-oc"]).2.read "c" = .ok (bytesOf "== a\n") ∧
      (execute willing configured ["-ia", "-dd", "-oc"]).1.error =
        some "1 of 2 files failed to convert") := by
  have hpool : willing.StartsPools := fun _ _ => rfl
  refine ⟨hpool, ?_, ?_, ?_⟩
  · have hargs : parse? [] = some (.convert {}) := rfl
    obtain ⟨-, -, -, hdone, -⟩ := execute_outcome willing configured hargs hpool
    obtain ⟨files, hfiles, hwhole, -⟩ := hdone _ _ _ (prepared_configured rfl)
    obtain ⟨⟨hstdout, -⟩, herror⟩ := hwhole fun _ => nofun
    refine ⟨hargs, ?_, herror.trans (by decide +kernel)⟩
    rw [hstdout]
    exact render_of_single "/srv/files/a.bin" hfiles (by decide +kernel) (by decide +kernel)
  · have hargs : parse? ["--unbounded"] = some (.convert { unbounded := true }) := by
      decide +kernel
    obtain ⟨-, -, -, hdone, -⟩ := execute_outcome willing configured hargs hpool
    obtain ⟨files, hfiles, hwhole, -⟩ := hdone _ _ _ (prepared_configured rfl)
    obtain ⟨⟨hstdout, -⟩, herror⟩ := hwhole fun _ => nofun
    refine ⟨hargs, ?_, herror.trans (by decide +kernel)⟩
    rw [hstdout]
    exact render_of_single "/srv/files/a.bin" hfiles (by decide +kernel) (by decide +kernel)
  · have hargs : parse? ["-ia", "-dd", "-oc"] =
        some (.convert { inputs := ["a"], folders := ["d"], output := some "c" }) := by
      decide +kernel
    have hgather : configured.gather "d" = .ok ["d/b.bin"] := by decide +kernel
    have hprepared : Prepared configured
        { inputs := ["a"], folders := ["d"], output := some "c" } configuredSettings _
        ["a", "d/b.bin"] :=
      ⟨settles_configured, rfl, ⟨_, _, .given (by simp), .cons hgather .nil, rfl⟩, by simp⟩
    obtain ⟨-, -, -, hdone, -⟩ := execute_outcome willing configured hargs hpool
    obtain ⟨files, hfiles, hwhole, -⟩ := hdone _ _ _ hprepared
    have hopens : configured.Opens "c" ["home", "c"] :=
      FileSystem.target_eq_ok_iff.mp (by decide +kernel)
    have hwrite : CanWrite configured
        { inputs := ["a"], folders := ["d"], output := some "c" }
        (Export.render .outline files) := by
      rintro output ⟨⟩
      exact ⟨_, hopens, .inr fun _ => nofun⟩
    obtain ⟨⟨-, place, hplace, hdelivers⟩, herror⟩ := hwhole hwrite
    obtain rfl : place = ["home", "c"] := Except.ok.inj
      ((FileSystem.target_eq_ok_iff.mpr hplace).symm.trans (FileSystem.target_eq_ok_iff.mpr hopens))
    rw [if_neg (by decide +kernel)] at hdelivers
    have htext : Export.render .outline files = "== a\n" :=
      render_of_single "a" hfiles (by decide +kernel) (by decide +kernel)
    exact ⟨hargs, htext ▸ hdelivers.2, herror.trans (by decide +kernel)⟩

end Command

end Arbor
