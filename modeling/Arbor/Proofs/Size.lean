import Arbor.Node.Equality
import Arbor.Proofs.Counting
import Arbor.Proofs.Layers
import Arbor.Proofs.Thinning
import Mathlib.Algebra.BigOperators.Ring.List
import Mathlib.Algebra.Order.BigOperators.Group.List
import Mathlib.Algebra.Order.Group.Nat
import Mathlib.Algebra.Ring.Nat

/-!
# How many nodes converted trees have

The nodes of a tree are paid for by the bytes of its canonical form.  A message costs two bytes
besides its records, and two nodes are allowed for each byte.  A node may also have single
children without a message: a type without one is a single node, and an expression without one is
the placeholder with its type.  So the nodes below a node exceed twice its bytes by a fixed number
that depends on its type only and is four at most (`Node.allowance`), which the two bytes of its own
message pay for (`Node.size_tree_le`).

A census counts the nodes of the tree (`Node.total_census`).  `Root.total_census_le`: it is linear
in the number of bytes that the tree was converted from, and no count on the way gets too large for
64 bits.
-/

namespace Arbor

/-! ### Sizes of trees -/

namespace Tree

variable {α : Type}

/-- The size of a group is the sum of the sizes of its members. -/
lemma sizeGroup_eq_sum (ts : List (Tree α)) : sizeGroup ts = (ts.map size).sum := by
  induction ts with
  | nil => rfl
  | cons t ts ih => rw [sizeGroup, ih, List.map_cons, List.sum_cons]

/-- The size of groups is the sum of their sizes. -/
lemma sizeGroups_eq_sum (gs : List (List (Tree α))) :
    sizeGroups gs = (gs.map fun g => (g.map size).sum).sum := by
  induction gs with
  | nil => rfl
  | cons g gs ih => rw [sizeGroups, ih, sizeGroup_eq_sum, List.map_cons, List.sum_cons]

/-- A tree has one node more than its groups together. -/
lemma size_eq (t : Tree α) : t.size = 1 + (t.groups.map fun g => (g.map size).sum).sum := by
  cases t with
  | node a gs => rw [size, sizeGroups_eq_sum, groups]

end Tree

/-- A tree has its topmost node and the trees in its slots. -/
lemma Node.size_tree (n : Node) :
    n.tree.size =
      1 + (n.slots.map fun slot => (slot.children.map fun c => c.tree.size).sum).sum := by
  rw [Tree.size_eq, Node.groups_tree, List.map_map]
  simp only [Function.comp_def, List.map_map]

/-- Trees in slots are smaller. -/
lemma Node.size_tree_lt {n c : Node} {slot : Slot} (hslot : slot ∈ n.slots)
    (hc : c ∈ slot.children) : c.tree.size < n.tree.size := by
  have hchild : c.tree.size ≤ (slot.children.map fun c => c.tree.size).sum :=
    List.le_sum_of_mem (List.mem_map_of_mem hc)
  have hsum : (slot.children.map fun c => c.tree.size).sum ≤
      (n.slots.map fun slot => (slot.children.map fun c => c.tree.size).sum).sum :=
    List.le_sum_of_mem (List.mem_map_of_mem (f := fun slot : Slot =>
      (slot.children.map fun c => c.tree.size).sum) hslot)
  rw [n.size_tree]
  omega

/-! ### Nodes and bytes -/

namespace Wire

/-- A number takes at least one byte. -/
lemma length_writeVarint_pos (n : Nat) : 0 < (writeVarint n).length := by
  rw [length_writeVarint]
  split <;> omega

/-- A message costs at least two bytes more than its records. -/
lemma sum_bodies_le_length_encode (rs : List Record) :
    ((bodies rs).map fun body => (encode body).length + 2).sum ≤ (encode rs).length := by
  induction rs with
  | nil => exact Nat.le_refl 0
  | cons r rs ih =>
    rw [encode, List.length_append, bodies]
    cases r with
    | message number body =>
      have htag : 0 < (writeTag number .delimited).length := length_writeVarint_pos _
      have hlength := length_writeVarint_pos (encode body).length
      have hcons : (Record.message number body :: rs).filterMap Record.inside? =
          body :: bodies rs := rfl
      rw [hcons, List.map_cons, List.sum_cons, Record.encode, writeDelimited]
      simp only [List.length_append]
      omega
    | _ =>
      rw [List.filterMap_cons_none rfl]
      exact Nat.le_trans ih (Nat.le_add_left _ _)

end Wire

/-- How many nodes the child in a slot may be without having a message. -/
def Slot.allowance : Slot → Nat
  | one (.type _) => 1
  | one (.expr _) => 2
  | _ => 0

/-- How many nodes a node and its children may be without having messages. -/
def Node.allowance (n : Node) : Nat :=
  1 + (n.slots.map Slot.allowance).sum

/-- Whatever its type, a node is allowed four nodes without messages at most. -/
lemma Node.allowance_le (n : Node) : n.allowance ≤ 4 := by
  cases n <;> simp [allowance, slots, Slot.allowance]

/-- The trees in a slot have at most two nodes for each byte of the messages of the slot, not
counting those that need no message. -/
lemma Slot.size_le {slot : Slot}
    (h : ∀ c ∈ slot.children, c.tree.size ≤ 2 * (Wire.encode c.records).length + 4) :
    (slot.children.map fun c => c.tree.size).sum ≤
      2 * (slot.written.map fun c => (Wire.encode c.records).length + 2).sum + slot.allowance := by
  cases slot with
  | many children =>
    have hsum : (children.map fun c => c.tree.size).sum ≤
        (children.map fun c => 2 * ((Wire.encode c.records).length + 2)).sum :=
      List.sum_le_sum fun c hc => by
        have hc' := h c hc
        omega
    rw [List.sum_map_mul_left] at hsum
    exact hsum
  | one child =>
    have hmem : child ∈ (Slot.one child).children := List.mem_singleton_self child
    have hchild := h child hmem
    have hone : ((Slot.one child).children.map fun c => c.tree.size).sum = child.tree.size := by
      simp [Slot.children]
    rw [hone]
    rcases Slot.mem_written_or hmem with hwritten | rfl | rfl
    · have hpaid : (Wire.encode child.records).length + 2 ≤
          ((Slot.one child).written.map fun c => (Wire.encode c.records).length + 2).sum :=
        List.le_sum_of_mem (List.mem_map_of_mem (f := fun c : Node =>
          (Wire.encode c.records).length + 2) hwritten)
      omega
    · have hsize : (Node.expr .placeholder).tree.size = 2 := rfl
      have hallowance : (Slot.one (.expr .placeholder)).allowance = 2 := rfl
      omega
    · have hsize : (Node.type {}).tree.size = 1 := rfl
      have hallowance : (Slot.one (.type {})).allowance = 1 := rfl
      omega

/-- The tree of a node has at most two nodes for each byte of the canonical records of the node, not
counting those that need no message.  The induction is on the size of the tree: it is enough that
four nodes are free for each child, as its message costs two bytes. -/
theorem Node.size_tree_le (n : Node) :
    n.tree.size ≤ 2 * (Wire.encode n.records).length + n.allowance := by
  induction hsize : n.tree.size using Nat.strongRecOn generalizing n with
  | ind size ih =>
    subst hsize
    have hslots : (n.slots.map fun slot => (slot.children.map fun c => c.tree.size).sum).sum ≤
        (n.slots.map fun slot =>
          2 * (slot.written.map fun c => (Wire.encode c.records).length + 2).sum +
            slot.allowance).sum := by
      refine List.sum_le_sum fun slot hslot => Slot.size_le fun c hc => ?_
      have hc' := ih _ (Node.size_tree_lt hslot hc) c rfl
      have hfour := c.allowance_le
      omega
    have hpaid : (n.slots.map fun slot =>
          (slot.written.map fun c => (Wire.encode c.records).length + 2).sum).sum ≤
        (Wire.encode n.records).length := by
      have hbodies := Wire.sum_bodies_le_length_encode n.records
      rw [(n.perm_bodies_records.map _).sum_eq, List.map_map, List.map_flatMap,
        List.flatMap_def, List.sum_flatten, List.map_map] at hbodies
      exact hbodies
    rw [List.sum_map_add, List.sum_map_mul_left] at hslots
    rw [n.size_tree, Node.allowance]
    omega

/-! ### Counting -/

namespace Tree

variable {α : Type}

mutual

/-- The size of a tree is the number of its nodes. -/
theorem length_occurrences : ∀ t : Tree α, t.occurrences.length = t.size
  | node a gs => by
    rw [occurrences, List.length_cons, length_groupOccurrences, size, Nat.add_comm]

/-- The groups of a tree have as many occurrences as nodes. -/
theorem length_groupOccurrences (g : Nat) :
    ∀ gs : List (List (Tree α)), (groupOccurrences g gs).length = sizeGroups gs
  | [] => rfl
  | ts :: gs => by
    rw [groupOccurrences, List.length_append, length_rowOccurrences, length_groupOccurrences,
      sizeGroups]

/-- A row of trees has as many occurrences as nodes. -/
theorem length_rowOccurrences (g i : Nat) :
    ∀ ts : List (Tree α), (rowOccurrences g i ts).length = sizeGroup ts
  | [] => rfl
  | t :: ts => by
    rw [rowOccurrences, List.length_append, below, List.length_map, length_occurrences,
      length_rowOccurrences, sizeGroup]

end

end Tree

/-- A census counts all nodes of the tree. -/
theorem Node.total_census (n : Node) : n.census.total = n.tree.size := by
  rw [n.total_census_eq_length, n.occurrences_tree, Tree.length_occurrences]

/-- Counts only grow. -/
lemma Census.total_le_of_runs {c c' : Census} {l : List (Call Node)}
    (h : counter.Runs c l c') : c.total ≤ c'.total := by
  have hcount := count_of_runs (p := fun _ => true) total_add total_single h
  rw [hcount]
  exact Nat.le_add_right _ _

/-! ### Converted trees -/

/-- A converted tree has at most two nodes for each byte that it was converted from, and one more.
So if the bytes are fewer than 2⁶³, all counts that there are while the tree is walked fit 64 bits,
and so do their sums. -/
theorem Root.total_census_le (limits : Limits) (bytes : Wire.Bytes) (t : Root)
    (h : (Root.ofBytes limits bytes).result = .ok t) :
    t.census.total ≤ 2 * bytes.length + 1 ∧
      (bytes.length < 0x8000000000000000 → ∀ before after : List (Call Node),
        (Node.root t).calls Census.counter 0 = before ++ after →
          ∃ c, Census.counter.Runs 0 before c ∧ c.total < 0x10000000000000000) := by
  have hsize : (Node.root t).tree.size ≤ 2 * t.toBytes.length + 1 := (Node.root t).size_tree_le
  have hlength : t.toBytes.length ≤ bytes.length := (Root.bounded_of_ofBytes h).length
  have htotal : t.census.total ≤ 2 * bytes.length + 1 := by
    rw [Root.census, Node.total_census]
    omega
  refine ⟨htotal, fun hshort before after hcalls => ?_⟩
  have hruns : Census.counter.Runs 0 (before ++ after) t.census :=
    hcalls ▸ Tree.runs_calls Census.counter (Node.root t).tree 0
  obtain ⟨c, hbefore, hafter⟩ := hruns.split
  have hle := Census.total_le_of_runs hafter
  exact ⟨c, hbefore, by omega⟩

/-- A declaration with two fields that have no content: two bytes for four nodes each. -/
def Root.twoEmptyFields : Wire.Bytes :=
  [0x12, 0x06, 0x1a, 0x04, 0x22, 0x00, 0x22, 0x00]

/-- A tree with two fields of which nothing is said, and the first five calls of its count. -/
theorem Root.total_census_le_twoEmptyFields :
    ∃ t, (Root.ofBytes {} twoEmptyFields).result = .ok t ∧ t.census.total = 11 ∧
      t.census.total ≤ 2 * twoEmptyFields.length + 1 ∧
      ∃ c, Census.counter.Runs 0 (((Node.root t).calls Census.counter 0).take 5) c ∧
        c.total < 0x10000000000000000 := by
  have htree : (Root.ofBytes {} twoEmptyFields).result =
      .ok { namespaces := [
        { declarations := [
            { fields := [{ initializer := .placeholder },
                         { initializer := .placeholder }] }] }] } := by
    decide +kernel
  obtain ⟨htotal, hcounts⟩ := Root.total_census_le {} twoEmptyFields _ htree
  exact ⟨_, htree, rfl, htotal, hcounts (by decide) _ _ (List.take_append_drop 5 _).symm⟩

end Arbor
