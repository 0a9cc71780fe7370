import Arbor.Census
import Arbor.Proofs.Walk.Nesting
import Arbor.Proofs.Walk.Occurrences

/-!
# Counting is exact

A census is taken by a walk.  The counter adds up what it is called for (`Census.count_of_runs`),
and as it agrees to everything, it is called for all nodes of the tree.  So the number for each type
of node is the number of its occurrences, found by recursion over the fields, and the total is the
number of all occurrences.

Other visitors see at most what the counter sees, and exactly that if they agree to everything.
`Node.census_exact` states this for every node and every visitor.
-/

namespace Arbor

/-- The nine types of node. -/
inductive NodeType where
  | root
  | ns
  | decl
  | method
  | var
  | stmt
  | expr
  | mod
  | type
  deriving DecidableEq, Inhabited

/-- The type of a node. -/
def Node.nodeType : Node → NodeType
  | root _ => .root
  | ns _ => .ns
  | decl _ => .decl
  | method _ => .method
  | var _ => .var
  | stmt _ => .stmt
  | expr _ => .expr
  | mod _ => .mod
  | type _ => .type

namespace Census

/-- The number for one type of node. -/
def get (c : Census) : NodeType → Nat
  | .root => c.roots
  | .ns => c.namespaces
  | .decl => c.declarations
  | .method => c.methods
  | .var => c.vars
  | .stmt => c.statements
  | .expr => c.expressions
  | .mod => c.modifiers
  | .type => c.types

@[simp] lemma get_zero (k : NodeType) : (0 : Census).get k = 0 := by
  cases k <;> rfl

/-- Counts are added type by type. -/
lemma get_add (a b : Census) (k : NodeType) : (a + b).get k = a.get k + b.get k := by
  cases k <;> rfl

/-- One node counts for its type only. -/
lemma get_single (n : Node) (k : NodeType) :
    (single n).get k = if n.nodeType = k then 1 else 0 := by
  cases n <;> cases k <;> rfl

/-- What is added up over a census grows by one with each visit that counts. -/
lemma count_of_runs {f : Census → Nat} {p : Node → Bool} (hadd : ∀ a b, f (a + b) = f a + f b)
    (hsingle : ∀ n, f (single n) = if p n then 1 else 0) {c c' : Census} {l : List (Call Node)}
    (h : counter.Runs c l c') : f c' = f c + (visits l).countP fun o => p o.2 := by
  induction h with
  | nil => rfl
  | @cons c c' c'' call l hask _ ih =>
    obtain ⟨moment, x, n, answer⟩ := call
    have hstate : (counter.ask moment n c).2 = c' := congrArg Prod.snd hask
    cases moment with
    | enter =>
      have hcount : c + single n = c' := hstate
      have hvisits : (visits (⟨.enter, x, n, answer⟩ :: l)).countP (fun o => p o.2) =
          (visits l).countP (fun o => p o.2) + if p n then 1 else 0 := List.countP_cons
      rw [ih, ← hcount, hadd, hsingle, hvisits]
      omega
    | leave =>
      have hcount : c = c' := hstate
      rw [ih, ← hcount]
      rfl

/-- The counter agrees to everything. -/
lemma counter_agrees (n : Node) (c : Census) : ∀ call ∈ n.calls counter c, call.answer = true :=
  (Tree.runs_calls counter n.tree c).agrees (fun _ _ => rfl) fun _ _ => rfl

end Census

namespace Node

open Census

/-- A census adds up, over all nodes of the tree, what a single node counts for. -/
lemma count_census {f : Census → Nat} {p : Node → Bool} (hzero : f 0 = 0)
    (hadd : ∀ a b, f (a + b) = f a + f b) (hsingle : ∀ n, f (single n) = if p n then 1 else 0)
    (n : Node) : f n.census = n.occurrences.countP fun o => p o.2 := by
  have hcount := count_of_runs hadd hsingle (Tree.runs_calls counter n.tree 0)
  have hvisits : visits (n.tree.calls counter 0) = n.occurrences :=
    visits_eq_occurrences (counter_agrees n 0)
  rw [hvisits, hzero, Nat.zero_add] at hcount
  exact hcount

/-- The number for a type of node is the number of its occurrences. -/
lemma get_census (n : Node) (k : NodeType) :
    n.census.get k = n.occurrences.countP fun o => o.2.nodeType = k :=
  n.count_census (f := fun c => c.get k) (p := fun m => m.nodeType = k) (get_zero k)
    (fun a b => get_add a b k) fun m => by simp [get_single]

/-- The total is the number of all occurrences. -/
lemma total_census_eq_length (n : Node) : n.census.total = n.occurrences.length := by
  have hcount := n.count_census (p := fun _ => true) total_zero total_add total_single
  rwa [List.countP_true] at hcount

end Node

/-! ### Enters and leaves -/

/-- Counting visits is counting enters. -/
lemma countP_visits (p : Node → Bool) (l : List (Call Node)) :
    (visits l).countP (fun o => p o.2) = l.countP fun c => c.moment = .enter && p c.node := by
  rw [visits, List.countP_map, List.countP_filter]
  refine List.countP_congr fun c _ => ?_
  simp [and_comm]

/-- There are as many visits as calls that enter a node. -/
lemma length_visits (l : List (Call Node)) :
    (visits l).length = l.countP fun c => c.moment = .enter := by
  rw [visits, List.length_map, List.countP_eq_length_filter]

/-- A walk leaves as many nodes as it enters. -/
lemma Node.countP_leave {σ : Type} (v : Visitor Node σ) (n : Node) (s : σ) :
    (n.calls v s).countP (fun c => c.moment = .leave) =
      (n.calls v s).countP fun c => c.moment = .enter := by
  obtain ⟨w, hw⟩ := (Tree.block_calls v n.tree s).closed Tree.closed_dyckWord
  have hcount : ∀ m : Moment, w.toList.count m.step =
      (n.calls v s).countP fun c => c.moment = m := by
    intro m
    rw [hw, List.count_map_of_injective _ _ Moment.step_injective, List.count_eq_countP,
      List.countP_map]
    rfl
  exact ((hcount .enter).symm.trans (w.count_U_eq_count_D.trans (hcount .leave))).symm

/-- Counting is exact.  The census of a node has, for each type of node, the number of its
occurrences in the tree, and in total the number of all occurrences.  No visitor enters more nodes,
neither in total nor of one type, and a visitor that agrees to everything, whatever it does with its
state, enters and leaves exactly as many. -/
theorem Node.census_exact (n : Node) :
    (∀ k, n.census.get k = n.occurrences.countP fun o => o.2.nodeType = k) ∧
      n.census.total = n.occurrences.length ∧
      ∀ (σ : Type) (v : Visitor Node σ) (s : σ),
        v.Runs s (n.calls v s) (n.walk v s).2 ∧
        (∀ k, (n.calls v s).countP (fun c => c.moment = .enter && c.node.nodeType = k) ≤
          n.census.get k) ∧
        (n.calls v s).countP (fun c => c.moment = .enter) ≤ n.census.total ∧
        ((∀ c ∈ n.calls v s, c.answer = true) →
          (∀ k, (n.calls v s).countP (fun c => c.moment = .enter && c.node.nodeType = k) =
            n.census.get k) ∧
          (n.calls v s).countP (fun c => c.moment = .enter) = n.census.total ∧
          (n.calls v s).countP (fun c => c.moment = .leave) = n.census.total) := by
  refine ⟨n.get_census, n.total_census_eq_length, fun σ v s => ?_⟩
  have hsub := n.visits_sublist v s
  refine ⟨Tree.runs_calls v n.tree s, fun k => ?_, ?_, fun hagrees => ?_⟩
  · rw [← countP_visits (fun m => m.nodeType = k), n.get_census]
    exact hsub.countP_le
  · rw [← length_visits, n.total_census_eq_length]
    exact hsub.length_le
  · have hall := visits_eq_occurrences hagrees
    have htotal : (n.calls v s).countP (fun c => c.moment = .enter) = n.census.total := by
      rw [← length_visits, hall, n.total_census_eq_length]
    refine ⟨fun k => ?_, htotal, (n.countP_leave v s).trans htotal⟩
    rw [← countP_visits (fun m => m.nodeType = k), hall, n.get_census]

/-- A statement with two expressions has seven nodes, as the condition counts and each expression
has a type.  A visitor that stops after each node misses the second expression and its type. -/
theorem Node.census_exact_twoLiterals :
    (Node.stmt .twoLiterals).census.get .expr = 3 ∧
      (Node.stmt .twoLiterals).census.total = 7 ∧
      ((Node.stmt .twoLiterals).calls ({} : Visitor Node Unit) ()).countP
        (fun c => c.moment = .leave) = 7 ∧
      ((Node.stmt .twoLiterals).calls .stopping ()).countP (fun c => c.moment = .enter) = 5 ∧
      ((Node.stmt .twoLiterals).calls .stopping ()).countP (fun c => c.moment = .enter) ≤ 7 := by
  obtain ⟨hcounts, htotal, hvisitors⟩ := Node.census_exact (.stmt .twoLiterals)
  have hseven : (Node.stmt .twoLiterals).census.total = 7 := htotal
  obtain ⟨-, -, -, hall⟩ := hvisitors Unit {} ()
  obtain ⟨-, -, hleave⟩ := hall (List.all_eq_true.mp rfl)
  obtain ⟨-, -, hle, -⟩ := hvisitors Unit .stopping ()
  rw [hseven] at hleave hle
  exact ⟨hcounts .expr, hseven, hleave, rfl, hle⟩

end Arbor
