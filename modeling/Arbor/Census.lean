import Arbor.Node.Shape

/-!
# Counting nodes

A `Census` holds one number for each of the nine node types.  `Node.census` counts the
nodes of a tree by walking it with `Census.counter`, a visitor that enters everything.
-/

namespace Arbor

/-- The number of nodes of each type. -/
structure Census where
  roots : Nat := 0
  namespaces : Nat := 0
  declarations : Nat := 0
  methods : Nat := 0
  vars : Nat := 0
  statements : Nat := 0
  expressions : Nat := 0
  modifiers : Nat := 0
  types : Nat := 0
  deriving DecidableEq, Inhabited

namespace Census

instance : Zero Census := ⟨{}⟩

/-- Counts are added type by type. -/
def add (a b : Census) : Census where
  roots := a.roots + b.roots
  namespaces := a.namespaces + b.namespaces
  declarations := a.declarations + b.declarations
  methods := a.methods + b.methods
  vars := a.vars + b.vars
  statements := a.statements + b.statements
  expressions := a.expressions + b.expressions
  modifiers := a.modifiers + b.modifiers
  types := a.types + b.types

instance : Add Census := ⟨add⟩

/-- The number of nodes of all types together. -/
def total (c : Census) : Nat :=
  c.roots + c.namespaces + c.declarations + c.methods + c.vars + c.statements +
    c.expressions + c.modifiers + c.types

/-- The count of a single node, without what is below it. -/
def single : Node → Census
  | .root _ => { roots := 1 }
  | .ns _ => { namespaces := 1 }
  | .decl _ => { declarations := 1 }
  | .method _ => { methods := 1 }
  | .var _ => { vars := 1 }
  | .stmt _ => { statements := 1 }
  | .expr _ => { expressions := 1 }
  | .mod _ => { modifiers := 1 }
  | .type _ => { types := 1 }

/-- Count every node on the way down, and go everywhere. -/
def counter : Visitor Node Census where
  enter n c := (true, c + single n)

@[simp] theorem total_zero : (0 : Census).total = 0 := rfl

/-- The totals of two censuses are added. -/
theorem total_add (a b : Census) : (a + b).total = a.total + b.total := by
  simp only [HAdd.hAdd, Add.add, add, total]
  simp only [Nat.add_eq]
  omega

/-- One node counts once. -/
@[simp] theorem total_single (n : Node) : (single n).total = 1 := by
  cases n <;> rfl

end Census

/-- The number of nodes of each type in the tree of a node, the node included. -/
def Node.census (n : Node) : Census :=
  (n.walk Census.counter 0).2

/-- The number of nodes of each type in a source file. -/
def Root.census (r : Root) : Census :=
  (Node.root r).census

end Arbor
