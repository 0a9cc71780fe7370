import Arbor.Batch
import Mathlib.Data.List.Basic
import Mathlib.Tactic.Lemma

/-!
# Converting with several workers

A pool of workers takes up the inputs of a batch in any order.  A worker reads a file, converts
what it has read, and puts the outcome in the place of its input; what several workers do may be
interleaved in any way.  The order makes no difference: whatever the workers do, they come to an
end after two steps for each input, and the outcomes are those of converting the inputs one after
the other (`Pool.Reaches.ends`).
-/

namespace Arbor

open Wire (Bytes)

/-- What a pool of workers has done about an input. -/
inductive Task where
  | waiting
  /-- A worker has read the file, or failed to. -/
  | opened (content : Except AccessError Bytes)
  | done (outcome : Batch.Outcome)

namespace Task

def isWaiting : Task → Bool
  | waiting => true
  | _ => false

/-- Whether a worker is occupied with the input. -/
def isOpened : Task → Bool
  | opened _ => true
  | _ => false

/-- What was done about an input is what the file at its path asks for. -/
def Fits (fs : FileSystem) (limits : Limits) (path : String) : Task → Prop
  | waiting => True
  | opened content => content = fs.read path
  | done outcome => outcome = { path, result := fs.convertFile limits path }

end Task

namespace Pool

variable (fs : FileSystem) (limits : Limits) (workers : Nat) (paths : List String)

/-- What one worker can do next: take up an input that waits, if the worker is free, or convert
what it has read. -/
inductive Step : List Task → List Task → Prop where
  | take {tasks : List Task} {i : Nat} {path : String} (htask : tasks[i]? = some .waiting)
      (hpath : paths[i]? = some path) (hfree : tasks.countP Task.isOpened < workers) :
      Step tasks (tasks.set i (.opened (fs.read path)))
  | finish {tasks : List Task} {i : Nat} {path : String} {content : Except AccessError Bytes}
      (htask : tasks[i]? = some (.opened content)) (hpath : paths[i]? = some path) :
      Step tasks (tasks.set i (.done { path, result := Root.load limits path content }))

/-- What can have been done about the inputs after a number of steps. -/
inductive Reaches : Nat → List Task → Prop where
  | start : Reaches 0 (paths.map fun _ => .waiting)
  | step {n : Nat} {tasks next : List Task} (hreaches : Reaches n tasks)
      (hstep : Step fs limits workers paths tasks next) : Reaches (n + 1) next

/-- There is a task for each input, and it fits the input. -/
structure Sound (tasks : List Task) : Prop where
  length_eq : tasks.length = paths.length
  fits : ∀ {i : Nat} {path : String} {task : Task}, paths[i]? = some path →
    tasks[i]? = some task → task.Fits fs limits path

/-- The number of steps that are left. -/
def remaining (tasks : List Task) : Nat :=
  2 * tasks.countP Task.isWaiting + tasks.countP Task.isOpened

variable {fs limits workers paths} {tasks next : List Task} {n : Nat}

/-- In the beginning all tasks wait. -/
lemma Sound.start : Sound fs limits paths (paths.map fun _ => .waiting) where
  length_eq := by simp
  fits hpath htask := by
    simp only [List.getElem?_map, hpath, Option.map_some, Option.some.injEq] at htask
    subst htask
    trivial

/-- A task that fits its path keeps the tasks sound. -/
lemma Sound.set {i : Nat} {path : String} {task : Task} (h : Sound fs limits paths tasks)
    (hpath : paths[i]? = some path) (hfits : task.Fits fs limits path) :
    Sound fs limits paths (tasks.set i task) where
  length_eq := by simp [h.length_eq]
  fits {j path' task'} hpath' htask' := by
    by_cases hij : i = j
    · subst hij
      obtain rfl : path = path' := Option.some.inj (hpath.symm.trans hpath')
      obtain ⟨-, rfl⟩ : (∃ old, tasks[i]? = some old) ∧ task = task' := by
        simpa [List.getElem?_set_self'] using htask'
      exact hfits
    · rw [List.getElem?_set_ne hij] at htask'
      exact h.fits hpath' htask'

/-- A step of any worker fits the input it is about, and leaves the others alone. -/
lemma Sound.step (h : Sound fs limits paths tasks)
    (hstep : Step fs limits workers paths tasks next) : Sound fs limits paths next := by
  rcases hstep with ⟨-, hpath, -⟩ | ⟨htask, hpath⟩
  · exact h.set hpath rfl
  · have hcontent := h.fits hpath htask
    refine h.set hpath ?_
    rw [Task.Fits, FileSystem.convertFile, hcontent]

/-- Every step is one step less that is left. -/
lemma Step.remaining_add_one (hstep : Step fs limits workers paths tasks next) :
    remaining next + 1 = remaining tasks := by
  rcases hstep with ⟨htask, -, -⟩ | ⟨htask, -⟩
  · obtain ⟨hi, hget⟩ := List.getElem?_eq_some_iff.mp htask
    have hpos : 0 < tasks.countP Task.isWaiting :=
      List.countP_pos_iff.mpr ⟨_, List.getElem_mem hi, by rw [hget]; rfl⟩
    rw [remaining, remaining, List.countP_set hi, List.countP_set hi, hget]
    simp only [Task.isWaiting, Task.isOpened, if_true, if_false, Bool.false_eq_true]
    omega
  · obtain ⟨hi, hget⟩ := List.getElem?_eq_some_iff.mp htask
    have hpos : 0 < tasks.countP Task.isOpened :=
      List.countP_pos_iff.mpr ⟨_, List.getElem_mem hi, by rw [hget]; rfl⟩
    rw [remaining, remaining, List.countP_set hi, List.countP_set hi, hget]
    simp only [Task.isWaiting, Task.isOpened, if_true, if_false, Bool.false_eq_true]
    omega

/-- All tasks that are reached are sound. -/
lemma Reaches.sound (h : Reaches fs limits workers paths n tasks) :
    Sound fs limits paths tasks := by
  induction h with
  | start => exact .start
  | step _ hstep ih => exact ih.step hstep

/-- Each task takes two steps, so the steps taken and those remaining are twice the paths. -/
lemma Reaches.add_remaining (h : Reaches fs limits workers paths n tasks) :
    n + remaining tasks = 2 * paths.length := by
  induction h with
  | start => simp [remaining, List.countP_replicate, Task.isWaiting, Task.isOpened]
  | step _ hstep ih =>
    have hless := hstep.remaining_add_one
    omega

/-- While something is left to be done, some worker can do a step. -/
lemma Sound.exists_step (h : Sound fs limits paths tasks) (hworkers : 0 < workers)
    (hremaining : remaining tasks ≠ 0) : ∃ next, Step fs limits workers paths tasks next := by
  have hpath : ∀ i, i < tasks.length → ∃ path, paths[i]? = some path := fun i hi =>
    ⟨_, List.getElem?_eq_getElem (h.length_eq ▸ hi)⟩
  by_cases hopened : tasks.countP Task.isOpened = 0
  · -- all workers are free, and an input is waiting
    have hwaiting : 0 < tasks.countP Task.isWaiting := by
      rw [remaining] at hremaining
      omega
    obtain ⟨task, hmem, htask⟩ := List.countP_pos_iff.mp hwaiting
    obtain ⟨i, hi, rfl⟩ := List.mem_iff_getElem.mp hmem
    obtain ⟨path, hpath⟩ := hpath i hi
    have hget : tasks[i]? = some .waiting := by
      rw [List.getElem?_eq_getElem hi]
      cases hcase : tasks[i] <;> simp_all [Task.isWaiting]
    exact ⟨_, .take hget hpath (hopened ▸ hworkers)⟩
  · obtain ⟨task, hmem, htask⟩ := List.countP_pos_iff.mp (Nat.pos_of_ne_zero hopened)
    obtain ⟨i, hi, rfl⟩ := List.mem_iff_getElem.mp hmem
    obtain ⟨path, hpath⟩ := hpath i hi
    obtain ⟨content, hget⟩ : ∃ content, tasks[i]? = some (.opened content) := by
      rw [List.getElem?_eq_getElem hi]
      cases hcase : tasks[i] <;> simp_all [Task.isOpened]
    exact ⟨_, .finish hget hpath⟩

/-- When nothing is left to be done, the outcome of each input stands in its place. -/
lemma Sound.eq_done (h : Sound fs limits paths tasks) (hremaining : remaining tasks = 0) :
    tasks = (fs.convertAll limits paths).map .done := by
  have hwaiting : ∀ task ∈ tasks, task.isWaiting = false := by
    simpa using List.countP_eq_zero.mp (show tasks.countP Task.isWaiting = 0 by
      rw [remaining] at hremaining; omega)
  have hopened : ∀ task ∈ tasks, task.isOpened = false := by
    simpa using List.countP_eq_zero.mp (show tasks.countP Task.isOpened = 0 by
      rw [remaining] at hremaining; omega)
  refine List.ext_getElem (by simp [FileSystem.convertAll, h.length_eq]) fun i hi _ => ?_
  have hfits := h.fits (List.getElem?_eq_getElem (h.length_eq ▸ hi)) (List.getElem?_eq_getElem hi)
  have hw := hwaiting _ (List.getElem_mem hi)
  have ho := hopened _ (List.getElem_mem hi)
  cases hcase : tasks[i] with
  | waiting => simp [hcase, Task.isWaiting] at hw
  | opened content => simp [hcase, Task.isOpened] at ho
  | done outcome =>
    rw [hcase, Task.Fits] at hfits
    simp [FileSystem.convertAll, hfits]

/-- Whatever the workers have done, either there is more for them to do, or they have done two
steps for each input and the outcomes are those of converting the inputs one after the other. -/
lemma Reaches.ends (h : Reaches fs limits workers paths n tasks) (hworkers : 0 < workers) :
    (n < 2 * paths.length ∧ ∃ next, Step fs limits workers paths tasks next) ∨
      (n = 2 * paths.length ∧ tasks = (fs.convertAll limits paths).map .done) := by
  have hcount := h.add_remaining
  by_cases hremaining : remaining tasks = 0
  · exact .inr ⟨by omega, h.sound.eq_done hremaining⟩
  · exact .inl ⟨by omega, h.sound.exists_step hworkers hremaining⟩

end Pool

end Arbor
