/-!
# Trees and walks

A `Tree` is an ordered tree whose children stand in groups.  A `Visitor` is asked on the
way down and on the way up.  Its answer on the way down decides whether the children of
the node are walked at all; its answer on the way up decides whether the walk goes on
with the later siblings of the same group.  Other groups of the same parent are not
touched by that, so a child that is alone in its group is always walked with its parent.

A visitor keeps a state of its choice, so each of its answers may depend on all it has
seen before.

## Main declarations

* `Tree`: ordered trees with grouped children.
* `Visitor`: the two questions, with the state they pass on.
* `Tree.walk`: the walk, with the answer that the visitor gave last.
-/

namespace Arbor

/-- An ordered tree.  The children of a node stand in groups. -/
inductive Tree (α : Type) where
  | node (label : α) (groups : List (List (Tree α)))

/-- What a walk asks at each node.  The defaults agree to everything and see nothing. -/
structure Visitor (α σ : Type) where
  /-- Asked before the children: are they to be walked? -/
  enter : α → σ → Bool × σ := fun _ s => (true, s)
  /-- Asked after the children: are later siblings to be walked? -/
  leave : α → σ → Bool × σ := fun _ s => (true, s)

namespace Tree

variable {α σ : Type}

/-- The label of the topmost node. -/
def label : Tree α → α
  | node a _ => a

/-- The groups of children below the topmost node. -/
def groups : Tree α → List (List (Tree α))
  | node _ gs => gs

mutual

/-- Walk a tree: enter its node, walk the groups below it if the visitor agrees, leave it. -/
def walk (v : Visitor α σ) : Tree α → σ → Bool × σ
  | node a gs, s =>
    let (descend, s) := v.enter a s
    v.leave a (if descend then walkGroups v gs s else s)

/-- Walk every group, whatever happened in the groups before it. -/
def walkGroups (v : Visitor α σ) : List (List (Tree α)) → σ → σ
  | [], s => s
  | g :: gs, s => walkGroups v gs (walkGroup v g s)

/-- Walk the trees of one group up to the first whose walk answers no. -/
def walkGroup (v : Visitor α σ) : List (Tree α) → σ → σ
  | [], s => s
  | t :: ts, s =>
    match walk v t s with
    | (true, s) => walkGroup v ts s
    | (false, s) => s

end

mutual

/-- The number of nodes of a tree. -/
def size : Tree α → Nat
  | node _ gs => 1 + sizeGroups gs

/-- The number of nodes in a list of groups. -/
def sizeGroups : List (List (Tree α)) → Nat
  | [] => 0
  | g :: gs => sizeGroup g + sizeGroups gs

/-- The number of nodes in a group. -/
def sizeGroup : List (Tree α) → Nat
  | [] => 0
  | t :: ts => size t + sizeGroup ts

end

end Tree

end Arbor
