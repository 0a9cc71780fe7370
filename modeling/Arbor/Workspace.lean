import Arbor.Path

/-!
# Workspaces and workers

A workspace is a folder with a fixed layout: cloned repositories, serialized files,
project records and the table of source mappings.

Files are converted by a pool of workers.  How many there are by default, and whether that
many can be had, is up to the machine.
-/

namespace Arbor

/-- A workspace below the given folder. -/
structure Workspace where
  root : String
  deriving DecidableEq, Inhabited

namespace Workspace

/-- Where repositories are cloned. -/
def repositories (w : Workspace) : String :=
  Path.join w.root "repositories"

/-- Where serialized syntax trees are kept. -/
def files (w : Workspace) : String :=
  Path.join w.root "files"

/-- Where the records of projects are kept. -/
def projects (w : Workspace) : String :=
  Path.join w.root "projects"

/-- The table of source mappings. -/
def sourceMappings (w : Workspace) : String :=
  Path.join w.root "source.mappings"

end Workspace

/-- The number of workers asked for, if it is one that can be had; otherwise the default of
the machine is taken. -/
def requestedWorkers? (requested : Option Nat) : Option Nat :=
  requested.filter (0 < ·)

/-- What a command needs to know about the machine it runs on. -/
structure Machine where
  /-- The number of processor cores. -/
  cores : Nat
  /-- Start a pool with the given number of workers, or say why it cannot be done. -/
  startPool : Nat → Except String Unit

/-- The number of workers to start: the one asked for, or half as many as there are cores, but
at least one. -/
def Machine.workers (m : Machine) (requested : Option Nat) : Nat :=
  (requestedWorkers? requested).getD (max 1 (m.cores / 2))

end Arbor
