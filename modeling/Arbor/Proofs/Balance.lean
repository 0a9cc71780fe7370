import Arbor.Proofs.Counting
import Mathlib.Algebra.Order.Group.Nat
import Mathlib.Algebra.Ring.Nat

/-!
# Children that are always there show in the counts

Each node of a tree, except for the topmost, is a child of exactly one node of the tree
(`Node.perm_nodes`).  So the nodes of one type are counted by looking at the children of each node.
Types are the parents of declarations, and one for each method, variable and expression.
Expressions stand in lists, or they are the condition of a statement or the initializer of a
variable.  This gives two equations between the numbers of a census (`Node.types_eq` and
`Node.expressions_eq`).

A walk that goes everywhere meets the same children: below each method, variable and expression
exactly one type, and exactly one condition or initializer below each statement or variable
(`Node.filter_visitsBelow`).
-/

namespace Arbor

/-! ### Nodes and their children -/

namespace Node

/-- The children of a node, slot by slot. -/
def children (n : Node) : List Node :=
  n.slots.flatMap Slot.children

/-- All nodes of the tree of a node. -/
def nodes (n : Node) : List Node :=
  n.occurrences.map Prod.snd

end Node

/-- The nodes below a child are the same as seen from the parent. -/
lemma map_snd_below {α : Type} (k : Nat × Nat) (l : List (Position × α)) :
    (below k l).map Prod.snd = l.map Prod.snd := by
  rw [below, List.map_map]
  rfl

/-- The nodes of a row of trees are listed tree by tree. -/
lemma Tree.map_snd_rowOccurrences {α : Type} (g i : Nat) (ts : List (Tree α)) :
    (rowOccurrences g i ts).map Prod.snd = ts.flatMap fun t => t.occurrences.map Prod.snd := by
  induction ts generalizing i with
  | nil => rfl
  | cons t ts ih =>
    rw [rowOccurrences, List.map_append, map_snd_below, ih, List.flatMap_cons]

/-- The nodes in the slots of a tree are listed slot by slot. -/
lemma Tree.map_snd_groupOccurrences {α : Type} (g : Nat) (gs : List (List (Tree α))) :
    (groupOccurrences g gs).map Prod.snd =
      gs.flatten.flatMap fun t => t.occurrences.map Prod.snd := by
  induction gs generalizing g with
  | nil => rfl
  | cons ts gs ih =>
    rw [groupOccurrences, List.map_append, map_snd_rowOccurrences, ih, List.flatten_cons,
      List.flatMap_append]

namespace Node

/-- The nodes of a tree are the topmost node and the nodes of the trees of its children. -/
lemma nodes_eq (n : Node) : n.nodes = n :: n.children.flatMap nodes := by
  have htree : n.tree = .node n (n.slots.map fun slot => slot.children.map Node.tree) := by
    have heta : ∀ t : Tree Node, t = .node t.label t.groups := fun ⟨_, _⟩ => rfl
    rw [heta n.tree, n.label_tree, n.groups_tree]
  have hnodes : ∀ m : Node, m.tree.occurrences.map Prod.snd = m.nodes :=
    fun m => congrArg (List.map Prod.snd) m.occurrences_tree.symm
  rw [← hnodes, htree, Tree.occurrences, List.map_cons, Tree.map_snd_groupOccurrences, children]
  simp only [List.flatMap_def, List.map_flatten, List.map_map, Function.comp_def, hnodes]

/-- There are fewer nodes in a child than in its parent. -/
lemma length_nodes_lt {n c : Node} (hc : c ∈ n.children) : c.nodes.length < n.nodes.length := by
  have hsub : c.nodes.Sublist (n.children.flatMap nodes) :=
    List.sublist_flatten_of_mem (List.mem_map_of_mem hc)
  rw [n.nodes_eq, List.length_cons]
  exact Nat.lt_succ_of_le hsub.length_le

/-- A property holds of all nodes if each node inherits it from its children. -/
theorem children_induction {P : Node → Prop} (h : ∀ n, (∀ c ∈ n.children, P c) → P n) (n : Node) :
    P n :=
  h n fun c _ => children_induction h c
termination_by n.nodes.length
decreasing_by exact length_nodes_lt ‹_›

/-- Each node except for the topmost is a child of exactly one node. -/
theorem perm_nodes (n : Node) : n.nodes.Perm (n :: n.nodes.flatMap children) := by
  induction n using children_induction with
  | h n ih =>
    have hbelow : ∀ cs : List Node, (∀ c ∈ cs, c.nodes.Perm (c :: c.nodes.flatMap children)) →
        (cs.flatMap nodes).Perm (cs ++ (cs.flatMap nodes).flatMap children) := by
      intro cs hcs
      induction cs with
      | nil => exact .refl _
      | cons c cs ihcs =>
        obtain ⟨hc, hcs⟩ := List.forall_mem_cons.mp hcs
        have hsplit := hc.append (ihcs hcs)
        rw [List.flatMap_cons, List.flatMap_append]
        exact hsplit.trans (.cons c (List.perm_append_comm_assoc _ _ _))
    rw [n.nodes_eq, List.flatMap_cons]
    exact .cons n (hbelow n.children ih)

/-- A count of nodes, by the children of each node. -/
lemma countP_nodes (n : Node) (p : Node → Bool) :
    n.nodes.countP p = (n.nodes.flatMap children).countP p + if p n then 1 else 0 := by
  rw [n.perm_nodes.countP_eq, List.countP_cons]

/-- A census counts the nodes of each type. -/
lemma get_census_eq (n : Node) (k : NodeType) :
    n.census.get k = n.nodes.countP fun m => m.nodeType = k := by
  rw [n.get_census, nodes, List.countP_map]
  rfl

/-! ### The two equations -/

/-- The parents that a declaration names.  Other nodes have none. -/
def parents : Node → List TypeRef
  | decl d => d.parents
  | _ => []

/-- The lists of expressions that a node has: those of statements, the content of methods, and the
arguments and operands of expressions. -/
def expressionLists : Node → List (List Expression)
  | method m => [m.content]
  | stmt s => [s.expressions, s.initializations, s.updates]
  | expr e => [e.arguments, e.operands]
  | _ => []

/-- The number of all parents that declarations in a tree name. -/
def totalParents (n : Node) : Nat :=
  (n.nodes.map fun m => m.parents.length).sum

/-- The number of all expressions in lists of expressions in a tree. -/
def totalListed (n : Node) : Nat :=
  (n.nodes.map fun m => (m.expressionLists.map List.length).sum).sum

/-- A node counts as one if it is of the given type. -/
def indicator (k : NodeType) (n : Node) : Nat :=
  if n.nodeType = k then 1 else 0

/-- The types among the children of a node: its parents, and the single type that methods, variables
and expressions have. -/
lemma countP_children_type (n : Node) :
    n.children.countP (fun c => c.nodeType = .type) =
      n.parents.length + n.indicator .method + n.indicator .var + n.indicator .expr := by
  cases n <;>
    simp [children, slots, Slot.children, parents, indicator, nodeType, List.countP_map,
      Function.comp_def]

/-- The expressions among the children of a node: those in its lists, and the single one that
statements and variables have. -/
lemma countP_children_expr (n : Node) :
    n.children.countP (fun c => c.nodeType = .expr) =
      (n.expressionLists.map List.length).sum + n.indicator .stmt + n.indicator .var := by
  cases n <;>
    simp [children, slots, Slot.children, expressionLists, indicator, nodeType, List.countP_map,
      Function.comp_def, Nat.add_assoc]

/-- A census counts the nodes of each type. -/
lemma sum_indicator (n : Node) (k : NodeType) :
    (n.nodes.map fun m => m.indicator k).sum = n.census.get k := by
  rw [get_census_eq]
  induction n.nodes with
  | nil => rfl
  | cons m l ih =>
    rw [List.map_cons, List.sum_cons, ih, List.countP_cons, indicator, Nat.add_comm]
    simp only [decide_eq_true_eq]

/-- The nodes of a type are counted by looking at the children of each node. -/
lemma get_census_eq_sum (n : Node) (k : NodeType) :
    n.census.get k =
      (n.nodes.map fun m => m.children.countP fun c => c.nodeType = k).sum + n.indicator k := by
  rw [get_census_eq, countP_nodes, List.countP_flatMap, indicator]
  simp only [decide_eq_true_eq]
  rfl

/-- The types in a tree are the parents of its declarations and one for each method, variable and
expression, besides the topmost node if that is a type itself. -/
theorem types_eq (n : Node) :
    n.census.types = n.totalParents + n.census.methods + n.census.vars + n.census.expressions +
      n.indicator .type := by
  have hsum := n.get_census_eq_sum .type
  simp only [countP_children_type, List.sum_map_add, sum_indicator] at hsum
  exact hsum

/-- The expressions in a tree are those in lists, the conditions of statements and the initializers
of variables, besides the topmost node if that is an expression itself. -/
theorem expressions_eq (n : Node) :
    n.census.expressions = n.totalListed + n.census.statements + n.census.vars +
      n.indicator .expr := by
  have hsum := n.get_census_eq_sum .expr
  simp only [countP_children_expr, List.sum_map_add, sum_indicator] at hsum
  exact hsum

end Node

/-! ### What a full walk meets -/

/-- The nodes that are entered directly below the node at `x`, with their positions, in the order of
the calls. -/
def visitsBelow {α : Type} (l : List (Call α)) (x : Position) : List (Position × α) :=
  (visits l).filter fun o => o.1 ≠ [] ∧ o.1.dropLast = x

namespace Node

variable {σ : Type} {v : Visitor Node σ} {n m : Node} {s : σ} {x : Position}

/-- A walk that goes everywhere meets the children of each node that it meets, and nothing else
directly below the node. -/
lemma mem_visitsBelow_iff (hagrees : ∀ c ∈ n.calls v s, c.answer = true) (hm : n.at? x = some m)
    {o : Position × Node} :
    o ∈ visitsBelow (n.calls v s) x ↔ ∃ k c, m.child? k = some c ∧ o = (x ++ [k], c) := by
  have hchild : ∀ k, n.at? (x ++ [k]) = m.child? k := by
    intro k
    rw [at?_append_singleton, hm, Option.bind_some]
  rw [visitsBelow, visits_eq_occurrences hagrees, List.mem_filter]
  constructor
  · rintro ⟨hmem, hbelow⟩
    obtain ⟨y, c⟩ := o
    obtain ⟨hne, rfl⟩ : y ≠ [] ∧ y.dropLast = x := by simpa using hbelow
    have hy : y.dropLast ++ [y.getLast hne] = y := List.dropLast_append_getLast hne
    have hat := mem_occurrences_iff.mp hmem
    rw [← hy, hchild] at hat
    exact ⟨y.getLast hne, c, hat, by rw [hy]⟩
  · rintro ⟨k, c, hc, rfl⟩
    exact ⟨mem_occurrences_iff.mpr ((hchild k).trans hc), by simp⟩

/-- If only one child of a node passes a test, then a walk that goes everywhere meets exactly one
node directly below the node that passes it. -/
lemma filter_visitsBelow (hagrees : ∀ c ∈ n.calls v s, c.answer = true) (hm : n.at? x = some m)
    {k : Nat × Nat} {c : Node} (hc : m.child? k = some c) {q : Position × Node → Bool}
    (hq : ∀ k' c', m.child? k' = some c' → (q (x ++ [k'], c') = true ↔ k' = k)) :
    (visitsBelow (n.calls v s) x).filter q = [(x ++ [k], c)] := by
  have hnodup : n.occurrences.Nodup :=
    n.pairwise_occurrences.imp fun hearlier heq => hearlier.ne (congrArg Prod.fst heq)
  have hvisits : ((visitsBelow (n.calls v s) x).filter q).Nodup := by
    rw [visitsBelow, visits_eq_occurrences hagrees]
    exact (hnodup.filter _).filter _
  rw [← List.perm_singleton, List.perm_ext_iff_of_nodup hvisits (List.nodup_singleton _)]
  intro o
  rw [List.mem_filter, mem_visitsBelow_iff hagrees hm, List.mem_singleton]
  constructor
  · rintro ⟨⟨k', c', hc', rfl⟩, hpass⟩
    have hk := (hq k' c' hc').mp hpass
    subst hk
    rw [hc] at hc'
    rw [Option.some.inj hc']
  · rintro rfl
    exact ⟨⟨k, c, hc, rfl⟩, (hq k c hc).mpr rfl⟩

/-- The type that a node always has, with the number of its slot: the return type of a method, the
type of a variable, the new type of an expression. -/
def ownType? : Node → Option (Nat × TypeRef)
  | method m => some (2, m.returnType)
  | var v => some (1, v.type)
  | expr e => some (3, e.newType)
  | _ => none

/-- The expression that a node always has, with the number of its slot: the condition of a
statement, the initializer of a variable. -/
def ownExpression? : Node → Option (Nat × Expression)
  | stmt s => some (3, s.condition)
  | var v => some (2, v.initializer)
  | _ => none

/-- The single type of a node stands in its slot. -/
lemma slots_of_ownType? {g : Nat} {t : TypeRef} (h : m.ownType? = some (g, t)) :
    m.slots[g]? = some (.one (.type t)) := by
  cases m <;> simp [ownType?] at h <;> obtain ⟨rfl, rfl⟩ := h <;> rfl

/-- The single expression of a node stands in its slot. -/
lemma slots_of_ownExpression? {g : Nat} {e : Expression} (h : m.ownExpression? = some (g, e)) :
    m.slots[g]? = some (.one (.expr e)) := by
  cases m <;> simp [ownExpression?] at h <;> obtain ⟨rfl, rfl⟩ := h <;> rfl

/-- A single child is at the first place of its slot. -/
lemma child?_eq_some_iff_of_one {g i : Nat} {c d : Node} (h : m.slots[g]? = some (.one d)) :
    m.child? (g, i) = some c ↔ i = 0 ∧ c = d := by
  rw [child?, h, Option.bind_some, Slot.children]
  cases i with
  | zero => simp [eq_comm]
  | succ i => simp

/-- The types of the nodes in the slots of a node. -/
def slotTypes : Node → List NodeType
  | root _ => [.ns]
  | ns _ => [.mod, .decl]
  | decl _ => [.mod, .type, .var, .method, .decl]
  | method _ => [.mod, .var, .type, .stmt, .expr]
  | var _ => [.mod, .type, .expr]
  | stmt _ => [.expr, .expr, .expr, .expr, .stmt]
  | expr _ => [.expr, .var, .expr, .type]
  | mod _ => []
  | type _ => []

/-- The nodes in a slot are all of the same type. -/
lemma slotTypes_of_child? {g i : Nat} {c : Node} (h : m.child? (g, i) = some c) :
    m.slotTypes[g]? = some c.nodeType := by
  have hslots : List.Forall₂ (fun slot k => ∀ c ∈ slot.children, c.nodeType = k)
      m.slots m.slotTypes := by
    cases m <;> simp [slots, slotTypes, Slot.children, nodeType]
  obtain ⟨slot, hslot, hc⟩ := Option.bind_eq_some_iff.mp h
  obtain ⟨hg, rfl⟩ := List.getElem?_eq_some_iff.mp hslot
  have hg' : g < m.slotTypes.length := hslots.length_eq ▸ hg
  rw [List.getElem?_eq_getElem hg', hslots.get hg hg' c (List.mem_of_getElem? hc)]
  rfl

/-- The only type among the children of a method, a variable or an expression is its own. -/
lemma nodeType_eq_type_iff {g : Nat} {t : TypeRef} {k : Nat × Nat} {c : Node}
    (h : m.ownType? = some (g, t)) (hc : m.child? k = some c) :
    c.nodeType = .type ↔ k = (g, 0) := by
  obtain ⟨j, i⟩ := k
  have hown := child?_eq_some_iff_of_one (i := i) (c := c) (slots_of_ownType? h)
  constructor
  · intro htype
    have hslot := slotTypes_of_child? hc
    rw [htype] at hslot
    have hj : j = g := by
      cases m <;> simp [ownType?] at h <;> obtain ⟨rfl, rfl⟩ := h
      all_goals
        rcases j with _ | _ | _ | _ | _ | j
        all_goals simp [slotTypes] at hslot ⊢
    subst hj
    rw [(hown.mp hc).1]
  · rintro ⟨rfl, rfl⟩
    rw [(hown.mp hc).2]
    rfl

end Node

/-- Children that are always there show in the counts.  In the census of a source file, the types
are the parents of all declarations and one for each method, variable and expression, and the
expressions are one for each statement and each variable and those in lists of expressions.  A walk
that goes everywhere enters as many nodes of each type as the census has.  Directly below each
method, variable and expression it meets exactly one type, which is the own type of the node; and it
meets exactly one condition below each statement and exactly one initializer below each variable. -/
theorem Root.census_balance (r : Root) :
    r.census.types = (Node.root r).totalParents + r.census.methods + r.census.vars +
        r.census.expressions ∧
      r.census.expressions = r.census.statements + r.census.vars + (Node.root r).totalListed ∧
      ∀ (σ : Type) (v : Visitor Node σ) (s : σ),
        (∀ c ∈ (Node.root r).calls v s, c.answer = true) →
        v.Runs s ((Node.root r).calls v s) ((Node.root r).walk v s).2 ∧
        (∀ k, ((Node.root r).calls v s).countP
          (fun c => c.moment = .enter && c.node.nodeType = k) = r.census.get k) ∧
        ∀ x m, (x, m) ∈ visits ((Node.root r).calls v s) →
          (∀ g t, m.ownType? = some (g, t) →
            (visitsBelow ((Node.root r).calls v s) x).filter (fun o => o.2.nodeType = .type) =
              [(x ++ [(g, 0)], .type t)]) ∧
          ∀ g e, m.ownExpression? = some (g, e) →
            (visitsBelow ((Node.root r).calls v s) x).filter
                (fun o => o.1.getLast?.map Prod.fst = some g) =
              [(x ++ [(g, 0)], .expr e)] := by
  have htypes := (Node.root r).types_eq
  have hexpressions := (Node.root r).expressions_eq
  refine ⟨htypes, ?_, fun σ v s hagrees => ?_⟩
  · have hsum : r.census.expressions =
        (Node.root r).totalListed + r.census.statements + r.census.vars := hexpressions
    rw [hsum]
    omega
  · have hvisits : visits ((Node.root r).calls v s) = (Node.root r).occurrences :=
      Node.visits_eq_occurrences hagrees
    refine ⟨Tree.runs_calls v (Node.root r).tree s, fun k => ?_, fun x m hmem => ?_⟩
    · rw [← countP_visits (fun m => m.nodeType = k), hvisits]
      exact ((Node.root r).get_census k).symm
    · rw [hvisits] at hmem
      have hm : (Node.root r).at? x = some m := Node.mem_occurrences_iff.mp hmem
      constructor
      · intro g t hown
        have hchild : m.child? (g, 0) = some (.type t) :=
          (Node.child?_eq_some_iff_of_one (Node.slots_of_ownType? hown)).mpr ⟨rfl, rfl⟩
        refine Node.filter_visitsBelow hagrees hm hchild fun k c hc => ?_
        rw [decide_eq_true_eq, Node.nodeType_eq_type_iff hown hc]
      · intro g e hown
        have hone := fun i c => Node.child?_eq_some_iff_of_one (i := i) (c := c)
          (Node.slots_of_ownExpression? hown)
        refine Node.filter_visitsBelow hagrees hm ((hone 0 _).mpr ⟨rfl, rfl⟩) ?_
        rintro ⟨j, i⟩ c hc
        have hplace : j = g → i = 0 := by
          rintro rfl
          exact ((hone i c).mp hc).1
        simpa using hplace

/-- A declaration with a parent and a method.  The method has a statement with a condition, and in
it a statement with an expression. -/
def Root.guardedJob : Root where
  namespaces := [{
    declarations := [{
      name := "Job"
      parents := [{ name := "Task" }]
      methods := [{
        name := "run"
        statements := [{
          condition := { variableName := "flag" }
          statements := [{ expressions := [{ literal := "1" }] }] }] }] }] }]

/-- There are five types: a parent, the return type, and one for each of the two conditions and the
expression.  The walk meets the return type as the only type directly below the method, and the
placeholder as the condition of the inner statement. -/
theorem Root.census_balance_guardedJob :
    Root.guardedJob.census.types = 1 + 1 + 0 + 3 ∧
      Root.guardedJob.census.expressions = 2 + 0 + 1 ∧
      (visitsBelow ((Node.root .guardedJob).calls ({} : Visitor Node Unit) ())
          [(0, 0), (1, 0), (3, 0)]).filter (fun o => o.2.nodeType = .type) =
        [([(0, 0), (1, 0), (3, 0), (2, 0)], .type {})] ∧
      (visitsBelow ((Node.root .guardedJob).calls ({} : Visitor Node Unit) ())
          [(0, 0), (1, 0), (3, 0), (3, 0), (4, 0)]).filter
            (fun o => o.1.getLast?.map Prod.fst = some 3) =
        [([(0, 0), (1, 0), (3, 0), (3, 0), (4, 0), (3, 0)], .expr .placeholder)] := by
  obtain ⟨htypes, hexpressions, hwalk⟩ := Root.census_balance .guardedJob
  obtain ⟨-, -, hvisits⟩ := hwalk Unit {} () (List.all_eq_true.mp rfl)
  have hmethod := hvisits [(0, 0), (1, 0), (3, 0)] _ (List.mem_of_getElem? (i := 4) rfl)
  have hinner := hvisits [(0, 0), (1, 0), (3, 0), (3, 0), (4, 0)] _
    (List.mem_of_getElem? (i := 9) rfl)
  exact ⟨htypes, hexpressions, hmethod.1 2 _ rfl, hinner.2 3 _ rfl⟩

end Arbor
