import Arbor.Proofs.FileSystem
import Arbor.Proofs.Pool
import Mathlib.Data.List.Forall2

/-!
# Batches

A file that cannot be converted has no effect on the other files of a batch, and printing an
export and writing it to a file agree (`FileSystem.batch_isolates_failures`).  The output holds the
text afterwards if it is a file with enough room.  A device holds nothing, and on a full disk what
the file held before is lost (`FileSystem.run_loses_content`).

The inputs of a batch are divided into those that convert and those that do not
(`FileSystem.converts`).  The converted files of the report belong to the former and the failures
to the latter, one by one and in the order of the inputs.
-/

namespace Arbor

/-- The path of the file that gives no tree. -/
def LoadError.path : LoadError → String
  | unreadable path _ | unmappable path | unconvertible path _ => path

/-- A warning names the path of the file, and says what failed: opening the file, getting at its
content, or converting it. -/
def LoadError.Warns (path warning : String) : Prop :=
  ∃ verb ∈ ["open", "map", "convert"], ∃ cause,
    warning = "[Loader] Failed to " ++ verb ++ " " ++ path ++ ": " ++ cause

/-- The warning about a file names its path. -/
lemma LoadError.warns_warning (e : LoadError) : Warns e.path e.warning := by
  have hwarning : ∀ verb cause, e.message = "Failed to " ++ verb ++ " " ++ e.path ++ ": " ++ cause →
      e.warning = "[Loader] Failed to " ++ verb ++ " " ++ e.path ++ ": " ++ cause := by
    intro verb cause hmessage
    have hloader : "[Loader] Failed to " = "[Loader] " ++ "Failed to " := by decide
    have hdef : e.warning = "[Loader] " ++ e.message := rfl
    rw [hdef, hmessage, hloader]
    simp only [String.append_assoc]
  cases e with
  | unreadable path cause => exact ⟨"open", by simp, cause.message, hwarning _ _ rfl⟩
  | unmappable path =>
    have hcause : ": No such device (os error 19)" = ": " ++ "No such device (os error 19)" := by
      decide
    have hmessage : (unmappable path).message =
        "Failed to " ++ "map" ++ " " ++ path ++ ": No such device (os error 19)" := rfl
    rw [hcause, ← String.append_assoc] at hmessage
    exact ⟨"map", by simp, _, hwarning _ _ hmessage⟩
  | unconvertible path cause =>
    cases cause with
    | malformed fault =>
      have hmessage : (unconvertible path (.malformed fault)).message =
          "Failed to " ++ "convert" ++ " " ++ path ++ ": " ++
            (ConvertError.malformed fault).message ++ ": " ++ fault.message := rfl
      rw [@String.append_assoc _ ": ", @String.append_assoc _ _ (": " ++ _)] at hmessage
      exact ⟨"convert", by simp, _, hwarning _ _ hmessage⟩
    | _ => exact ⟨"convert", by simp, _, hwarning _ _ rfl⟩

/-- An error names the path that was loaded. -/
lemma Root.path_of_load_eq_error {limits : Limits} {path : String}
    {content : Except AccessError Wire.Bytes} {e : LoadError}
    (h : Root.load limits path content = .error e) : e.path = path := by
  unfold Root.load at h
  split at h
  · cases h
    rfl
  · cases h
    rfl
  · split at h <;> cases h
    rfl

/-- A source file is what the file at a path converts to. -/
def SourceFile.ComesFrom (fs : FileSystem) (limits : Limits) (path : String) (file : SourceFile) :
    Prop :=
  file.path = path ∧ fs.convertFile limits path = .ok file.root

namespace FileSystem

/-- Whether the file at a path can be converted. -/
def converts (fs : FileSystem) (limits : Limits) (path : String) : Bool :=
  (fs.convertFile limits path).isOk

/-- The inputs of a batch that can be converted. -/
def convertible (fs : FileSystem) (limits : Limits) (paths : List String) : List String :=
  paths.filter (fs.converts limits)

/-- The inputs of a batch that cannot be converted. -/
def inconvertible (fs : FileSystem) (limits : Limits) (paths : List String) : List String :=
  paths.filter (!fs.converts limits ·)

variable {fs : FileSystem} {limits : Limits} {path : String} {paths : List String}

/-! ### Reports -/

/-- An input that converts is one of the convertible inputs. -/
lemma convertible_cons_of_ok {root : Root} (h : fs.convertFile limits path = .ok root) :
    fs.convertible limits (path :: paths) = path :: fs.convertible limits paths :=
  List.filter_cons_of_pos (by simp [converts, h, Except.isOk, Except.toBool])

/-- An input that fails is not. -/
lemma convertible_cons_of_error {e : LoadError} (h : fs.convertFile limits path = .error e) :
    fs.convertible limits (path :: paths) = fs.convertible limits paths :=
  List.filter_cons_of_neg (by simp [converts, h, Except.isOk, Except.toBool])

/-- An input that converts is not one of the inconvertible inputs. -/
lemma inconvertible_cons_of_ok {root : Root} (h : fs.convertFile limits path = .ok root) :
    fs.inconvertible limits (path :: paths) = fs.inconvertible limits paths :=
  List.filter_cons_of_neg (by simp [converts, h, Except.isOk, Except.toBool])

/-- An input that fails is. -/
lemma inconvertible_cons_of_error {e : LoadError} (h : fs.convertFile limits path = .error e) :
    fs.inconvertible limits (path :: paths) = path :: fs.inconvertible limits paths :=
  List.filter_cons_of_pos (by simp [converts, h, Except.isOk, Except.toBool])

/-- An input that converts adds a file to the report. -/
lemma convertBatch_cons_of_ok {root : Root} (h : fs.convertFile limits path = .ok root) :
    fs.convertBatch limits (path :: paths) =
      { files := { path, root } :: (fs.convertBatch limits paths).files
        failures := (fs.convertBatch limits paths).failures } := by
  simp [convertBatch, convertAll, Batch.Report.ofOutcomes, h]

/-- An input that fails adds a failure to the report. -/
lemma convertBatch_cons_of_error {e : LoadError} (h : fs.convertFile limits path = .error e) :
    fs.convertBatch limits (path :: paths) =
      { files := (fs.convertBatch limits paths).files
        failures := e :: (fs.convertBatch limits paths).failures } := by
  simp [convertBatch, convertAll, Batch.Report.ofOutcomes, h]

/-- The converted files are those of the convertible inputs, in their order. -/
lemma forall₂_files (fs : FileSystem) (limits : Limits) (paths : List String) :
    List.Forall₂ (SourceFile.ComesFrom fs limits) (fs.convertible limits paths)
      (fs.convertBatch limits paths).files := by
  induction paths with
  | nil => exact .nil
  | cons path paths ih =>
    rcases h : fs.convertFile limits path with e | root
    · rw [convertBatch_cons_of_error h, convertible_cons_of_error h]
      exact ih
    · rw [convertBatch_cons_of_ok h, convertible_cons_of_ok h]
      exact .cons ⟨rfl, h⟩ ih

/-- The failures are those of the inconvertible inputs, in their order. -/
lemma forall₂_failures (fs : FileSystem) (limits : Limits) (paths : List String) :
    List.Forall₂ (fun path e => fs.convertFile limits path = .error e ∧ e.path = path)
      (fs.inconvertible limits paths) (fs.convertBatch limits paths).failures := by
  induction paths with
  | nil => exact .nil
  | cons path paths ih =>
    rcases h : fs.convertFile limits path with e | root
    · rw [convertBatch_cons_of_error h, inconvertible_cons_of_error h]
      exact .cons ⟨h, Root.path_of_load_eq_error h⟩ ih
    · rw [convertBatch_cons_of_ok h, inconvertible_cons_of_ok h]
      exact ih

/-- Without the inputs that fail, a batch gives the same files and no failures. -/
lemma convertBatch_convertible (fs : FileSystem) (limits : Limits) (paths : List String) :
    fs.convertBatch limits (fs.convertible limits paths) =
      { files := (fs.convertBatch limits paths).files, failures := [] } := by
  induction paths with
  | nil => rfl
  | cons path paths ih =>
    rcases h : fs.convertFile limits path with e | root
    · rw [convertBatch_cons_of_error h, convertible_cons_of_error h, ih]
    · rw [convertBatch_cons_of_ok h, convertible_cons_of_ok h, convertBatch_cons_of_ok h, ih]

/-- The report counts the convertible inputs. -/
lemma converted_convertBatch (fs : FileSystem) (limits : Limits) (paths : List String) :
    (fs.convertBatch limits paths).converted = (fs.convertible limits paths).length :=
  (fs.forall₂_files limits paths).length_eq.symm

/-- The report counts the inconvertible inputs. -/
lemma failed_convertBatch (fs : FileSystem) (limits : Limits) (paths : List String) :
    (fs.convertBatch limits paths).failed = (fs.inconvertible limits paths).length :=
  (fs.forall₂_failures limits paths).length_eq.symm

/-- Every input is counted once. -/
lemma converted_add_failed (fs : FileSystem) (limits : Limits) (paths : List String) :
    (fs.convertBatch limits paths).converted + (fs.convertBatch limits paths).failed =
      paths.length := by
  rw [converted_convertBatch, failed_convertBatch]
  exact (List.length_eq_length_filter_add _).symm

/-- There is one warning for each inconvertible input, in their order, and it names the input. -/
lemma forall₂_warnings (fs : FileSystem) (limits : Limits) (paths : List String) :
    List.Forall₂
      (fun path warning => LoadError.Warns path warning ∧
        ∃ e, fs.convertFile limits path = .error e ∧ e.path = path ∧ warning = e.warning)
      (fs.inconvertible limits paths) (fs.convertBatch limits paths).warnings := by
  rw [Batch.Report.warnings, List.forall₂_map_right_iff]
  refine (fs.forall₂_failures limits paths).imp fun path e h => ⟨?_, e, h.1, h.2, rfl⟩
  have hwarns := e.warns_warning
  rwa [h.2] at hwarns

/-! ### Exports -/

variable {exporter : Exporter} {output text : String} {place : List String}

/-- If the export has a text, it is written to the output. -/
lemma run_of_ok (h : exporter.render (fs.convertBatch limits paths).files = .ok text) :
    fs.run limits exporter paths output =
      ((fs.write output (bytesOf text)).1.mapError .unwritten, fs.convertBatch limits paths,
        (fs.write output (bytesOf text)).2) := by
  simp only [run, writeExport, h]
  rw [← bytesOf]
  rcases fs.write output (bytesOf text) with ⟨_ | _, _⟩ <;> rfl

/-- If the export has no text, nothing is written. -/
lemma run_of_error {message : String}
    (h : exporter.render (fs.convertBatch limits paths).files = .error message) :
    fs.run limits exporter paths output =
      (.error (.unrendered message), fs.convertBatch limits paths, fs) := by
  simp only [run, writeExport, h]

/-- What a run leaves behind that has a text to write.  If the output can be opened and there is
room for the text, the run succeeds; then the text is read at the output, and nothing else has
changed.  A device swallows the text, and nothing changes at all.  If there is not enough room, the
run fails and the output holds the beginning of the text.  If the output cannot be opened, the run
fails and nothing changes. -/
structure Writes (fs : FileSystem) (output text : String)
    (run : Except ExportError Unit × FileSystem) : Prop where
  whole : ∀ place, fs.Opens output place → Look.IsFree (fs.look place) →
    fs.Fits place (bytesOf text) →
    ∃ fs', run = (.ok (), fs') ∧ fs'.Revises fs place (bytesOf text) ∧
      fs'.read output = .ok (bytesOf text)
  swallowed : ∀ place, fs.Opens output place → fs.look place = some .sink → run = (.ok (), fs)
  cut : ∀ place, fs.Opens output place → Look.IsFree (fs.look place) →
    ¬ fs.Fits place (bytesOf text) →
    ∃ room fs', fs.roomFor place = some room ∧ room < (bytesOf text).length ∧
      run = (.error (.unwritten .noSpace), fs') ∧
      fs'.Revises fs place ((bytesOf text).take room)
  refused : (∀ place, ¬ fs.Opens output place) → ∃ e, run = (.error (.unwritten e), fs)

/-- Writing a text leaves behind what it should. -/
lemma writes_write (fs : FileSystem) (output text : String) :
    fs.Writes output text
      ((fs.write output (bytesOf text)).1.mapError .unwritten,
        (fs.write output (bytesOf text)).2) where
  whole place hopens hfree hfits := by
    obtain ⟨fs', hwrite, hrevises, hread⟩ := write_of_fits hopens hfree hfits
    exact ⟨fs', by rw [hwrite]; rfl, hrevises, hread⟩
  swallowed place hopens hsink := by
    rw [write_of_sink hopens hsink]
    rfl
  cut place hopens hfree hfits := by
    obtain ⟨room, fs', hroom, hlt, hwrite, hrevises⟩ := write_of_not_fits hopens hfree hfits
    exact ⟨room, fs', hroom, hlt, by rw [hwrite]; rfl, hrevises⟩
  refused hopens := by
    obtain ⟨e, hwrite⟩ := write_of_not_opens hopens (bytesOf text)
    exact ⟨e, by rw [hwrite]; rfl⟩

/-- In a batch every input is on its own.  Whatever the order in which a pool of workers takes up
the inputs, it comes to an end, with the outcome of each input in its place.  The report counts
every input once and warns about the inputs that fail, by their paths and in their order; the text
is that of exporting only the inputs that convert.

If the export is written to a file instead, the report is the same.  If the exporter fails, so does
the run, and nothing changes.  Otherwise the file system is changed at the place of the output only,
where the text is then read; this also holds if the output is one of the inputs.  The exceptions are
a device, which keeps nothing, and a disk without enough room for the text, on which the run fails
and the output keeps the beginning of the text only.  If the output cannot be opened, the run fails
and nothing changes. -/
theorem batch_isolates_failures (fs : FileSystem) (limits : Limits) (exporter : Exporter)
    (paths : List String) (output : String) {workers : Nat} (hworkers : 0 < workers) :
    (∀ n tasks, Pool.Reaches fs limits workers paths n tasks →
      (n < 2 * paths.length ∧ ∃ next, Pool.Step fs limits workers paths tasks next) ∨
        (n = 2 * paths.length ∧ tasks = (fs.convertAll limits paths).map .done)) ∧
    (∀ i : Nat, (fs.convertAll limits paths)[i]? =
      paths[i]?.map fun path => { path, result := fs.convertFile limits path }) ∧
    ∃ report, fs.render limits exporter paths = (exporter.render report.files, report) ∧
      report.converted + report.failed = paths.length ∧
      List.Forall₂
        (fun path warning => LoadError.Warns path warning ∧
          ∃ e, fs.convertFile limits path = .error e ∧ e.path = path ∧ warning = e.warning)
        (fs.inconvertible limits paths) report.warnings ∧
      List.Forall₂ (SourceFile.ComesFrom fs limits) (fs.convertible limits paths) report.files ∧
      (fs.render limits exporter (fs.convertible limits paths)).1 = exporter.render report.files ∧
      (∀ message, exporter.render report.files = .error message →
        fs.run limits exporter paths output = (.error (.unrendered message), report, fs)) ∧
      ∀ text, exporter.render report.files = .ok text →
        ∃ result fs', fs.run limits exporter paths output = (result, report, fs') ∧
          fs.Writes output text (result, fs') := by
  have hconvertible : (fs.render limits exporter (fs.convertible limits paths)).1 =
      exporter.render (fs.convertBatch limits paths).files := by
    rw [render, convertBatch_convertible]
  exact ⟨fun _ _ h => h.ends hworkers, fun i => List.getElem?_map ..,
    fs.convertBatch limits paths, rfl, fs.converted_add_failed limits paths,
    fs.forall₂_warnings limits paths, fs.forall₂_files limits paths, hconvertible,
    fun _ => run_of_error, fun text htext => ⟨_, _, run_of_ok htext, fs.writes_write output text⟩⟩

/-- A file without content, and one that breaks off. -/
def emptyAndBroken : FileSystem where
  top := .folder [("a", .file []), ("b", .file [0x0a])]
  home := []

/-- Of four inputs, one is broken, one is missing, and one stands there twice and is the output. -/
theorem batch_isolates_failures_emptyAndBroken :
    0 < 2 ∧ ∃ fs' report,
      emptyAndBroken.run {} Format.outline ["a", "b", "c", "a"] "a" = (.ok (), report, fs') ∧
      fs'.read "a" = .ok (bytesOf "== a\n== a\n") ∧
      fs'.look ["b"] = some (.file [0x0a]) ∧ report.converted + report.failed = 4 := by
  have hopens : emptyAndBroken.Opens "a" ["a"] := target_eq_ok_iff.mp (by decide +kernel)
  have htext : (emptyAndBroken.render {} Format.outline ["a", "b", "c", "a"]).1 =
      .ok "== a\n== a\n" := by decide +kernel
  obtain ⟨-, -, report, hrender, hcount, -, -, -, -, hrun⟩ :=
    batch_isolates_failures emptyAndBroken {} Format.outline ["a", "b", "c", "a"] "a"
      (show 0 < 2 by decide)
  rw [hrender] at htext
  obtain ⟨result, fs', hresult, hwrites⟩ := hrun _ htext
  obtain ⟨fs'', heq, hrevises, hread⟩ := hwrites.whole ["a"] hopens trivial fun _ => nofun
  obtain ⟨rfl, rfl⟩ := Prod.mk.inj heq
  refine ⟨by decide, fs', report, hresult, hread, ?_, hcount⟩
  rw [hrevises.look]
  rfl

/-- A file without content, a file of one byte, and a device. -/
def emptyAndSink (room : Option Nat) : FileSystem where
  top := .folder [("a", .file []), ("b", .file [0x0a]), ("c", .sink)]
  home := []
  room := room

/-- A run that succeeds need not leave its text at the output: nothing is read from a device.  A run
that fails need not leave everything as it was: on a full disk, the old content of the output is
lost, and only as much of the text is there as it had bytes. -/
theorem run_loses_content :
    (∃ report fs', (emptyAndSink none).run {} Format.outline ["a"] "c" = (.ok (), report, fs') ∧
      ((emptyAndSink none).render {} Format.outline ["a"]).1 = .ok "== a\n" ∧
      fs'.read "c" = .ok []) ∧
    ∃ report fs', (emptyAndSink (some 0)).run {} Format.outline ["a"] "b" =
        (.error (.unwritten .noSpace), report, fs') ∧
      (emptyAndSink (some 0)).read "b" = .ok [0x0a] ∧ fs'.read "b" = .ok [0x3d] := by
  refine ⟨⟨_, _, Prod.ext ?_ rfl, ?_, ?_⟩, _, _, Prod.ext ?_ rfl, ?_, ?_⟩ <;> decide +kernel

end FileSystem

end Arbor
