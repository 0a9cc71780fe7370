import Arbor.Proofs.Induction
import Arbor.Proofs.Walk.Visits

/-!
# The nodes of a tree

`Node.occurrences` lists all nodes of a tree with their positions: the node itself, then what is
below it, field by field.  It is defined by recursion over the fields of the nodes and does not
mention walks.

* A node occurs at a position exactly if it stands there (`Node.mem_occurrences_iff`), and the
  positions are listed in the order in which walks meet them (`Node.pairwise_occurrences`).
* Each walk enters some of the occurrences, in their order (`Node.visits_sublist`).  It enters all
  that have a property if the visitor refuses to go on only where nothing with the property is below
  (`Node.filter_visits`), and simply all if the visitor agrees to everything
  (`Node.visits_eq_occurrences`).
-/

namespace Arbor

variable {α β γ σ : Type}

/-! ### Occurrences, field by field -/

/-- What is listed of a child, as seen from its parent. -/
def below (k : Nat × Nat) (l : List (Position × α)) : List (Position × α) :=
  l.map fun o => (k :: o.1, o.2)

/-- What is listed of the members of a list, the first of which is at place `i` of slot `g`. -/
def row (list : α → List (Position × β)) (g i : Nat) : List α → List (Position × β)
  | [] => []
  | a :: as => below (g, i) (list a) ++ row list g (i + 1) as

def TypeRef.occurrences (t : TypeRef) : List (Position × Node) :=
  [([], .type t)]

def Modifier.occurrences (m : Modifier) : List (Position × Node) :=
  [([], .mod m)]

mutual

/-- The expression, then its arguments, declared variables, operands and new type. -/
def Expression.occurrences : Expression → List (Position × Node)
  | e@⟨_, _, _, _, arguments, declared, _, newType, operands⟩ =>
    ([], .expr e) :: (Expression.row 0 0 arguments ++ (Variable.row 1 0 declared ++
      (Expression.row 2 0 operands ++ below (3, 0) newType.occurrences)))

def Expression.row (g i : Nat) : List Expression → List (Position × Node)
  | [] => []
  | e :: es => below (g, i) e.occurrences ++ Expression.row g (i + 1) es

/-- The variable, then its modifiers, type and initializer. -/
def Variable.occurrences : Variable → List (Position × Node)
  | v@⟨_, type, initializer, modifiers⟩ =>
    ([], .var v) :: (Arbor.row Modifier.occurrences 0 0 modifiers ++
      (below (1, 0) type.occurrences ++ below (2, 0) initializer.occurrences))

def Variable.row (g i : Nat) : List Variable → List (Position × Node)
  | [] => []
  | v :: vs => below (g, i) v.occurrences ++ Variable.row g (i + 1) vs

end

mutual

/-- The statement, then its expressions, initializations, updates, condition and statements. -/
def Statement.occurrences : Statement → List (Position × Node)
  | s@⟨_, expressions, condition, statements, initializations, updates⟩ =>
    ([], .stmt s) :: (Arbor.row Expression.occurrences 0 0 expressions ++
      (Arbor.row Expression.occurrences 1 0 initializations ++
        (Arbor.row Expression.occurrences 2 0 updates ++
          (below (3, 0) condition.occurrences ++ Statement.row 4 0 statements))))

def Statement.row (g i : Nat) : List Statement → List (Position × Node)
  | [] => []
  | s :: ss => below (g, i) s.occurrences ++ Statement.row g (i + 1) ss

end

/-- The method, then its modifiers, arguments, return type, statements and content. -/
def Method.occurrences (m : Method) : List (Position × Node) :=
  ([], .method m) :: (row Modifier.occurrences 0 0 m.modifiers ++
    (row Variable.occurrences 1 0 m.arguments ++ (below (2, 0) m.returnType.occurrences ++
      (row Statement.occurrences 3 0 m.statements ++
        row Expression.occurrences 4 0 m.content))))

mutual

/-- The declaration, then its modifiers, parents, fields, methods and nested declarations. -/
def Declaration.occurrences : Declaration → List (Position × Node)
  | d@⟨_, _, modifiers, fields, methods, parents, nested⟩ =>
    ([], .decl d) :: (Arbor.row Modifier.occurrences 0 0 modifiers ++
      (Arbor.row TypeRef.occurrences 1 0 parents ++ (Arbor.row Variable.occurrences 2 0 fields ++
        (Arbor.row Method.occurrences 3 0 methods ++ Declaration.row 4 0 nested))))

def Declaration.row (g i : Nat) : List Declaration → List (Position × Node)
  | [] => []
  | d :: ds => below (g, i) d.occurrences ++ Declaration.row g (i + 1) ds

end

/-- The namespace, then its modifiers and declarations. -/
def Namespace.occurrences (n : Namespace) : List (Position × Node) :=
  ([], .ns n) :: (row Modifier.occurrences 0 0 n.modifiers ++
    row Declaration.occurrences 1 0 n.declarations)

/-- The root, then its namespaces. -/
def Root.occurrences (r : Root) : List (Position × Node) :=
  ([], .root r) :: row Namespace.occurrences 0 0 r.namespaces

/-- All nodes of the tree of a node, with their positions. -/
def Node.occurrences : Node → List (Position × Node)
  | root r => r.occurrences
  | ns n => n.occurrences
  | decl d => d.occurrences
  | method m => m.occurrences
  | var v => v.occurrences
  | stmt s => s.occurrences
  | expr e => e.occurrences
  | mod m => m.occurrences
  | type t => t.occurrences

/-! ### Rows -/

/-- Listing the images of members is listing the members. -/
lemma row_map (list : β → List (Position × γ)) (f : α → β) (g i : Nat) (as : List α) :
    row list g i (as.map f) = row (fun a => list (f a)) g i as := by
  induction as generalizing i with
  | nil => rfl
  | cons a as ih => rw [List.map_cons, row, row, ih]

/-- Only what is listed of each member matters. -/
lemma row_congr {list list' : α → List (Position × β)} {as : List α}
    (h : ∀ a ∈ as, list a = list' a) (g i : Nat) : row list g i as = row list' g i as := by
  induction as generalizing i with
  | nil => rfl
  | cons a as ih =>
    have htail := ih (fun a' ha' => h a' (List.mem_cons_of_mem _ ha')) (i + 1)
    rw [row, row, h a List.mem_cons_self, htail]

/-- The recursion over a list of expressions lists them member by member. -/
@[simp] lemma Expression.row_eq (g i : Nat) (es : List Expression) :
    Expression.row g i es = Arbor.row Expression.occurrences g i es := by
  induction es generalizing i with
  | nil => rfl
  | cons e es ih => rw [Expression.row, Arbor.row, ih]

/-- The recursion over a list of variables lists them member by member. -/
@[simp] lemma Variable.row_eq (g i : Nat) (vs : List Variable) :
    Variable.row g i vs = Arbor.row Variable.occurrences g i vs := by
  induction vs generalizing i with
  | nil => rfl
  | cons v vs ih => rw [Variable.row, Arbor.row, ih]

/-- The recursion over a list of statements lists them member by member. -/
@[simp] lemma Statement.row_eq (g i : Nat) (ss : List Statement) :
    Statement.row g i ss = Arbor.row Statement.occurrences g i ss := by
  induction ss generalizing i with
  | nil => rfl
  | cons s ss ih => rw [Statement.row, Arbor.row, ih]

/-- The recursion over a list of declarations lists them member by member. -/
@[simp] lemma Declaration.row_eq (g i : Nat) (ds : List Declaration) :
    Declaration.row g i ds = Arbor.row Declaration.occurrences g i ds := by
  induction ds generalizing i with
  | nil => rfl
  | cons d ds ih => rw [Declaration.row, Arbor.row, ih]

/-! ### Occurrences in trees -/

namespace Tree

mutual

/-- The labels of a tree with their positions. -/
def occurrences : Tree α → List (Position × α)
  | node a gs => ([], a) :: groupOccurrences 0 gs

/-- The labels of groups, the first of which has the number `g`. -/
def groupOccurrences (g : Nat) : List (List (Tree α)) → List (Position × α)
  | [] => []
  | ts :: gs => rowOccurrences g 0 ts ++ groupOccurrences (g + 1) gs

/-- The labels of the trees of group `g`, the first of which is at place `i`. -/
def rowOccurrences (g i : Nat) : List (Tree α) → List (Position × α)
  | [] => []
  | t :: ts => below (g, i) t.occurrences ++ rowOccurrences g (i + 1) ts

end

/-- The trees of a row are listed one by one. -/
lemma rowOccurrences_eq (g i : Nat) (ts : List (Tree α)) :
    rowOccurrences g i ts = row occurrences g i ts := by
  induction ts generalizing i with
  | nil => rfl
  | cons t ts ih => rw [rowOccurrences, row, ih]

/-- A group that is made of the trees of some things lists what the things list, if their trees do
so. -/
lemma rowOccurrences_map {f : β → Tree α} {list : β → List (Position × α)} {as : List β}
    (h : ∀ a ∈ as, list a = (f a).occurrences) (g i : Nat) :
    rowOccurrences g i (as.map f) = row list g i as := by
  rw [rowOccurrences_eq, row_map, row_congr h]

/-- A row of one tree has what is below its only place. -/
lemma rowOccurrences_singleton (g : Nat) (t : Tree α) :
    rowOccurrences g 0 [t] = below (g, 0) t.occurrences := by
  rw [rowOccurrences, rowOccurrences, List.append_nil]

end Tree

/-! ### The occurrences of a node are those of its tree -/

/-- Expressions and variables contain each other, so the recursion over their fields is compared
with that over their trees by one induction. -/
lemma occurrences_tree_nested :
    (∀ e : Expression, e.occurrences = e.tree.occurrences) ∧
      ∀ v : Variable, v.occurrences = v.tree.occurrences := by
  apply nested_induction
  · intro e iharguments ihdeclared ihoperands
    obtain ⟨kind, literal, methodName, variableName, arguments, declared, isPostfix, newType,
      operands⟩ := e
    rw [Expression.occurrences, Expression.tree]
    simp only [Expression.row_eq, Variable.row_eq, Expression.trees_eq_map,
      Variable.trees_eq_map, Tree.occurrences, Tree.groupOccurrences,
      Tree.rowOccurrences_map iharguments, Tree.rowOccurrences_map ihdeclared,
      Tree.rowOccurrences_map ihoperands, Tree.rowOccurrences_singleton, List.append_nil]
    rfl
  · intro v ihinitializer
    obtain ⟨name, type, initializer, modifiers⟩ := v
    have hmodifiers : ∀ m ∈ modifiers, m.occurrences = m.tree.occurrences := fun _ _ => rfl
    rw [Variable.occurrences, Variable.tree, ihinitializer]
    simp only [Tree.occurrences, Tree.groupOccurrences, Tree.rowOccurrences_map hmodifiers,
      Tree.rowOccurrences_singleton, List.append_nil]
    rfl

/-- What occurs in an expression is what occurs in its tree. -/
lemma Expression.occurrences_tree (e : Expression) : e.occurrences = e.tree.occurrences :=
  occurrences_tree_nested.1 e

/-- What occurs in a variable is what occurs in its tree. -/
lemma Variable.occurrences_tree (v : Variable) : v.occurrences = v.tree.occurrences :=
  occurrences_tree_nested.2 v

/-- What occurs in a statement is what occurs in its tree. -/
lemma Statement.occurrences_tree (s : Statement) : s.occurrences = s.tree.occurrences := by
  induction s using Statement.nested_induction with
  | hstmt s ih =>
    obtain ⟨kind, expressions, condition, statements, initializations, updates⟩ := s
    rw [Statement.occurrences, Statement.tree, condition.occurrences_tree]
    simp only [Statement.row_eq, Statement.trees_eq_map, Tree.occurrences, Tree.groupOccurrences,
      Tree.rowOccurrences_map fun e _ => Expression.occurrences_tree e, Tree.rowOccurrences_map ih,
      Tree.rowOccurrences_singleton, List.append_nil]

/-- What occurs in a method is what occurs in its tree. -/
lemma Method.occurrences_tree (m : Method) : m.occurrences = m.tree.occurrences := by
  have hmodifiers : ∀ n ∈ m.modifiers, n.occurrences = n.tree.occurrences := fun _ _ => rfl
  rw [Method.occurrences, Method.tree]
  simp only [Tree.occurrences, Tree.groupOccurrences, Tree.rowOccurrences_map hmodifiers,
    Tree.rowOccurrences_map fun v _ => Variable.occurrences_tree v,
    Tree.rowOccurrences_map fun s _ => Statement.occurrences_tree s,
    Tree.rowOccurrences_map fun e _ => Expression.occurrences_tree e,
    Tree.rowOccurrences_singleton, List.append_nil]
  rfl

/-- What occurs in a declaration is what occurs in its tree. -/
lemma Declaration.occurrences_tree (d : Declaration) : d.occurrences = d.tree.occurrences := by
  induction d using Declaration.nested_induction with
  | hdecl d ih =>
    obtain ⟨name, kind, modifiers, fields, methods, parents, nested⟩ := d
    have hmodifiers : ∀ m ∈ modifiers, m.occurrences = m.tree.occurrences := fun _ _ => rfl
    have hparents : ∀ t ∈ parents, t.occurrences = t.tree.occurrences := fun _ _ => rfl
    rw [Declaration.occurrences, Declaration.tree]
    simp only [Declaration.row_eq, Declaration.trees_eq_map, Tree.occurrences,
      Tree.groupOccurrences, Tree.rowOccurrences_map hmodifiers, Tree.rowOccurrences_map hparents,
      Tree.rowOccurrences_map fun v _ => Variable.occurrences_tree v,
      Tree.rowOccurrences_map fun m _ => Method.occurrences_tree m, Tree.rowOccurrences_map ih,
      List.append_nil]

/-- What occurs in a namespace is what occurs in its tree. -/
lemma Namespace.occurrences_tree (n : Namespace) : n.occurrences = n.tree.occurrences := by
  have hmodifiers : ∀ m ∈ n.modifiers, m.occurrences = m.tree.occurrences := fun _ _ => rfl
  rw [Namespace.occurrences, Namespace.tree]
  simp only [Tree.occurrences, Tree.groupOccurrences, Tree.rowOccurrences_map hmodifiers,
    Tree.rowOccurrences_map fun d _ => Declaration.occurrences_tree d, List.append_nil]

/-- What occurs in a root is what occurs in its tree. -/
lemma Root.occurrences_tree (r : Root) : r.occurrences = r.tree.occurrences := by
  rw [Root.occurrences, Root.tree]
  simp only [Tree.occurrences, Tree.groupOccurrences,
    Tree.rowOccurrences_map fun n _ => Namespace.occurrences_tree n, List.append_nil]

/-- The recursion over the fields finds what is in the tree that walks go through. -/
theorem Node.occurrences_tree (n : Node) : n.occurrences = n.tree.occurrences := by
  cases n with
  | root r => exact r.occurrences_tree
  | ns n => exact n.occurrences_tree
  | decl d => exact d.occurrences_tree
  | method m => exact m.occurrences_tree
  | var v => exact v.occurrences_tree
  | stmt s => exact s.occurrences_tree
  | expr e => exact e.occurrences_tree
  | mod m => rfl
  | type t => rfl

/-! ### Occurrences and positions -/

/-- What is listed of a child has the place of the child in front. -/
@[simp] lemma cons_mem_below {k k' : Nat × Nat} {x : Position} {a : α}
    {l : List (Position × α)} : (k' :: x, a) ∈ below k l ↔ k = k' ∧ (x, a) ∈ l := by
  simp only [below, List.mem_map, Prod.mk.injEq, List.cons.injEq, Prod.exists]
  constructor
  · rintro ⟨y, b, hmem, ⟨rfl, rfl⟩, rfl⟩
    exact ⟨rfl, hmem⟩
  · rintro ⟨rfl, hmem⟩
    exact ⟨x, a, hmem, ⟨rfl, rfl⟩, rfl⟩

/-- What is listed of a child is not at the position of the parent. -/
lemma nil_not_mem_below {k : Nat × Nat} {a : α} {l : List (Position × α)} :
    ([], a) ∉ below k l := by
  simp [below]

/-- The members of a list are listed at their places. -/
lemma mem_row_iff {list : α → List (Position × β)} {g i : Nat} {as : List α} {k : Nat × Nat}
    {x : Position} {b : β} :
    (k :: x, b) ∈ row list g i as ↔
      ∃ j a, k = (g, i + j) ∧ as[j]? = some a ∧ (x, b) ∈ list a := by
  induction as generalizing i with
  | nil => simp [row]
  | cons a as ih =>
    rw [row, List.mem_append, cons_mem_below, ih]
    constructor
    · rintro (⟨rfl, hmem⟩ | ⟨j, a', rfl, ha', hmem⟩)
      · exact ⟨0, a, rfl, rfl, hmem⟩
      · exact ⟨j + 1, a', by rw [Nat.add_right_comm, Nat.add_assoc], ha', hmem⟩
    · rintro ⟨j, a', rfl, ha', hmem⟩
      cases j with
      | zero =>
        cases ha'
        exact .inl ⟨rfl, hmem⟩
      | succ j => exact .inr ⟨j, a', by rw [Nat.add_right_comm, Nat.add_assoc], ha', hmem⟩

/-- What is listed of the members of a list is not at the position of the parent. -/
lemma nil_not_mem_row {list : α → List (Position × β)} {g i : Nat} {as : List α} {b : β} :
    ([], b) ∉ row list g i as := by
  induction as generalizing i with
  | nil => exact List.not_mem_nil
  | cons a as ih =>
    rw [row, List.mem_append]
    exact fun h => h.elim nil_not_mem_below ih

namespace Tree

/-- What is listed of the slots of a node is listed of one of the trees in them. -/
lemma mem_groupOccurrences_iff {g : Nat} {gs : List (List (Tree α))} {k : Nat × Nat}
    {x : Position} {a : α} :
    (k :: x, a) ∈ groupOccurrences g gs ↔
      ∃ j ts t, k.1 = g + j ∧ gs[j]? = some ts ∧ ts[k.2]? = some t ∧ (x, a) ∈ t.occurrences := by
  induction gs generalizing g with
  | nil => simp [groupOccurrences]
  | cons ts gs ih =>
    rw [groupOccurrences, List.mem_append, rowOccurrences_eq, mem_row_iff, ih]
    constructor
    · rintro (⟨i, t, rfl, ht, hmem⟩ | ⟨j, ts', t, hj, hts', ht, hmem⟩)
      · rw [← Nat.zero_add i] at ht
        exact ⟨0, ts, t, rfl, rfl, ht, hmem⟩
      · exact ⟨j + 1, ts', t, by omega, hts', ht, hmem⟩
    · rintro ⟨j, ts', t, hj, hts', ht, hmem⟩
      cases j with
      | zero =>
        cases hts'
        exact .inl ⟨k.2, t, Prod.ext hj (Nat.zero_add _).symm, ht, hmem⟩
      | succ j => exact .inr ⟨j, ts', t, by omega, hts', ht, hmem⟩

/-- What is listed of the slots of a node is not at the position of the node. -/
lemma nil_not_mem_groupOccurrences {g : Nat} {gs : List (List (Tree α))} {a : α} :
    ([], a) ∉ groupOccurrences g gs := by
  induction gs generalizing g with
  | nil => exact List.not_mem_nil
  | cons ts gs ih =>
    rw [groupOccurrences, List.mem_append, rowOccurrences_eq]
    exact fun h => h.elim nil_not_mem_row ih

/-- A label is listed with a position exactly if it stands there. -/
lemma mem_occurrences_iff {t : Tree α} {x : Position} {a : α} :
    (x, a) ∈ t.occurrences ↔ ∃ u, t.at? x = some u ∧ u.label = a := by
  induction x generalizing t with
  | nil =>
    obtain ⟨b, gs⟩ := t
    rw [occurrences, List.mem_cons, or_iff_left nil_not_mem_groupOccurrences]
    simp [at?, label, eq_comm]
  | cons k x ih =>
    obtain ⟨b, gs⟩ := t
    rw [occurrences, List.mem_cons, or_iff_right (by simp), mem_groupOccurrences_iff, at?]
    simp only [Nat.zero_add, child?, groups, Option.bind_eq_some_iff, ih]
    constructor
    · rintro ⟨j, ts, t, rfl, hts, ht, u, hu, hlabel⟩
      exact ⟨u, ⟨t, ⟨ts, hts, ht⟩, hu⟩, hlabel⟩
    · rintro ⟨u, ⟨t, ⟨ts, hts, ht⟩, hu⟩, hlabel⟩
      exact ⟨k.1, ts, t, rfl, hts, ht, u, hu, hlabel⟩

end Tree

/-- A node is listed with a position exactly if it stands there. -/
theorem Node.mem_occurrences_iff {n m : Node} {x : Position} :
    (x, m) ∈ n.occurrences ↔ n.at? x = some m := by
  rw [Node.occurrences_tree, Tree.mem_occurrences_iff, Node.at?_tree]
  simp only [Option.map_eq_some_iff]
  constructor
  · rintro ⟨u, ⟨m', hm', rfl⟩, rfl⟩
    rwa [Node.label_tree]
  · intro h
    exact ⟨m.tree, ⟨m, h, rfl⟩, Node.label_tree m⟩

/-! ### Visits -/

/-- The nodes that are entered, with their positions, in the order of the calls. -/
def visits (l : List (Call α)) : List (Position × α) :=
  (l.filter (·.moment = .enter)).map fun c => (c.position, c.node)

/-- The visits of two runs are put together. -/
lemma visits_append (l l' : List (Call α)) : visits (l ++ l') = visits l ++ visits l' := by
  rw [visits, List.filter_append, List.map_append, visits, visits]

/-- The visits below a child have the place of the child in front. -/
lemma visits_lift (k : Nat × Nat) (l : List (Call α)) :
    visits (l.map (Call.lift [k])) = below k (visits l) := by
  simp only [visits, below, List.filter_map, List.map_map]
  rfl

/-- The positions of the visits are those that are entered. -/
lemma map_fst_visits (l : List (Call α)) : (visits l).map Prod.fst = entries l := by
  rw [visits, entries, List.map_map]
  rfl

/-- Filtering by the node does not look at positions. -/
lemma filter_below (p : α → Bool) (k : Nat × Nat) (l : List (Position × α)) :
    (below k l).filter (fun o => p o.2) = below k (l.filter fun o => p o.2) := by
  rw [below, List.filter_map, below]
  rfl

/-- No node with the property is missed: the visitor stops nowhere, and where it refuses to go on,
no node below has the property. -/
def Covering (p : α → Bool) (nodes : List (Position × α)) (l : List (Call α)) : Prop :=
  ∀ c ∈ l, c.answer = false →
    c.moment = .enter ∧ ∀ k x a, (c.position ++ k :: x, a) ∈ nodes → p a = false

/-- Fewer calls miss nothing of fewer nodes. -/
lemma Covering.mono {p : α → Bool} {nodes nodes' : List (Position × α)} {l l' : List (Call α)}
    (h : Covering p nodes' l') (hl : l ⊆ l') (hnodes : nodes ⊆ nodes') : Covering p nodes l := by
  intro c hc hrefused
  obtain ⟨hmoment, hbelow⟩ := h c (hl hc) hrefused
  exact ⟨hmoment, fun k x a hmem => hbelow k x a (hnodes hmem)⟩

/-- A run that misses nothing as seen from the parent misses nothing as seen from the child. -/
lemma Covering.of_lift {p : α → Bool} {k : Nat × Nat} {nodes : List (Position × α)}
    {l : List (Call α)} (h : Covering p (below k nodes) (l.map (Call.lift [k]))) :
    Covering p nodes l := by
  intro c hc hrefused
  obtain ⟨hmoment, hbelow⟩ := h (c.lift [k]) (List.mem_map_of_mem hc) hrefused
  exact ⟨hmoment, fun k' x a hmem => hbelow k' x a (cons_mem_below.mpr ⟨rfl, hmem⟩)⟩

namespace Tree

/-- A node that is walked is visited first, and then what is below it. -/
lemma visits_walked (a : α) (answer : Bool) (l : List (Call α)) :
    visits (⟨.enter, [], a, true⟩ :: (l ++ [⟨.leave, [], a, answer⟩])) = ([], a) :: visits l := by
  rw [← List.singleton_append, visits_append, visits_append]
  exact congrArg (([], a) :: ·) (List.append_nil _)

mutual

/-- A walk enters some of the nodes of a tree, in their order, and all those with a property that it
does not miss. -/
theorem Block.visits {t : Tree α} {answer : Bool} {l : List (Call α)} :
    t.Block answer l → (visits l).Sublist t.occurrences ∧
      ∀ p : α → Bool, Covering p t.occurrences l →
        (visits l).filter (fun o => p o.2) = t.occurrences.filter fun o => p o.2
  | @Block.refused _ a gs answer => by
    refine ⟨.cons_cons _ (List.nil_sublist _), fun p hp => ?_⟩
    obtain ⟨-, hbelow⟩ := hp _ List.mem_cons_self rfl
    have hnone : (groupOccurrences 0 gs).filter (fun o => p o.2) = [] := by
      rw [List.filter_eq_nil_iff]
      rintro ⟨x, b⟩ hmem
      cases x with
      | nil => exact absurd hmem nil_not_mem_groupOccurrences
      | cons k x =>
        rw [hbelow k x b (List.mem_cons_of_mem _ hmem)]
        exact Bool.false_ne_true
    rw [occurrences, List.filter_cons, hnone]
    exact List.filter_cons
  | @Block.walked _ a gs answer l h => by
    obtain ⟨hsub, heq⟩ := Blocks.visits h
    rw [visits_walked, occurrences]
    refine ⟨.cons_cons _ hsub, fun p hp => ?_⟩
    have hinside : l ⊆ ⟨.enter, [], a, true⟩ :: (l ++ [⟨.leave, [], a, answer⟩]) :=
      List.subset_cons_of_subset _ (List.subset_append_left _ _)
    rw [List.filter_cons, List.filter_cons, heq p (hp.mono hinside (List.subset_cons_self _ _))]

/-- A walk enters some of the nodes in the slots of a node, in their order, and all those with a
property that it does not miss. -/
theorem Blocks.visits {g : Nat} {gs : List (List (Tree α))} {l : List (Call α)} :
    Blocks g gs l → (visits l).Sublist (groupOccurrences g gs) ∧
      ∀ p : α → Bool, Covering p (groupOccurrences g gs) l →
        (visits l).filter (fun o => p o.2) = (groupOccurrences g gs).filter fun o => p o.2
  | .nil => ⟨List.Sublist.slnil, fun _ _ => rfl⟩
  | .cons h h' => by
    obtain ⟨hsub, heq⟩ := Row.visits h
    obtain ⟨hsub', heq'⟩ := Blocks.visits h'
    rw [visits_append, groupOccurrences]
    refine ⟨hsub.append hsub', fun p hp => ?_⟩
    rw [List.filter_append, List.filter_append,
      heq p (hp.mono (List.subset_append_left _ _) (List.subset_append_left _ _)),
      heq' p (hp.mono (List.subset_append_right _ _) (List.subset_append_right _ _))]

/-- A walk enters some of the nodes of a row of trees, in their order, and all those with a property
that it does not miss. -/
theorem Row.visits {g i : Nat} {ts : List (Tree α)} {l : List (Call α)} :
    Row g i ts l → (visits l).Sublist (rowOccurrences g i ts) ∧
      ∀ p : α → Bool, Covering p (rowOccurrences g i ts) l →
        (visits l).filter (fun o => p o.2) = (rowOccurrences g i ts).filter fun o => p o.2
  | .nil => ⟨List.Sublist.slnil, fun _ _ => rfl⟩
  | .last h => by
    obtain ⟨hsub, -⟩ := Block.visits h
    rw [visits_lift, rowOccurrences]
    refine ⟨(hsub.map _).trans (List.sublist_append_left _ _), fun p hp => ?_⟩
    -- The visitor stopped here.
    obtain ⟨a, hmem⟩ := h.answered_leave_nil_iff.mpr rfl
    cases (hp _ (List.mem_map_of_mem hmem) rfl).1
  | .next h h' => by
    obtain ⟨hsub, heq⟩ := Block.visits h
    obtain ⟨hsub', heq'⟩ := Row.visits h'
    rw [visits_append, visits_lift, rowOccurrences]
    refine ⟨(hsub.map _).append hsub', fun p hp => ?_⟩
    have hfirst := (hp.mono (List.subset_append_left _ _) (List.subset_append_left _ _)).of_lift
    rw [List.filter_append, List.filter_append, filter_below, filter_below, heq p hfirst,
      heq' p (hp.mono (List.subset_append_right _ _) (List.subset_append_right _ _))]

end

end Tree

/-- A visitor that agrees to everything gives no other answer. -/
lemma Visitor.Runs.agrees {v : Visitor α σ} (henter : ∀ a s, (v.enter a s).1 = true)
    (hleave : ∀ a s, (v.leave a s).1 = true) {s s' : σ} {l : List (Call α)} (h : v.Runs s l s') :
    ∀ c ∈ l, c.answer = true := by
  intro c hc
  obtain ⟨s₁, s₂, hask⟩ := h.exists_ask hc
  have hanswer : (v.ask c.moment c.node s₁).1 = c.answer := congrArg Prod.fst hask
  rw [← hanswer]
  cases c.moment with
  | enter => exact henter c.node s₁
  | leave => exact hleave c.node s₁

namespace Node

/-- A walk enters some of the nodes, in their order. -/
theorem visits_sublist (v : Visitor Node σ) (n : Node) (s : σ) :
    (visits (n.calls v s)).Sublist n.occurrences := by
  rw [n.occurrences_tree]
  exact (Tree.block_calls v n.tree s).visits.1

/-- A walk enters all nodes with a property that it does not miss. -/
theorem filter_visits {v : Visitor Node σ} {n : Node} {s : σ} {p : Node → Bool}
    (h : Covering p n.occurrences (n.calls v s)) :
    (visits (n.calls v s)).filter (fun o => p o.2) = n.occurrences.filter fun o => p o.2 := by
  rw [n.occurrences_tree] at h ⊢
  exact (Tree.block_calls v n.tree s).visits.2 p h

/-- A walk enters all nodes if the visitor agrees to everything. -/
theorem visits_eq_occurrences {v : Visitor Node σ} {n : Node} {s : σ}
    (h : ∀ c ∈ n.calls v s, c.answer = true) : visits (n.calls v s) = n.occurrences := by
  have hcovering : Covering (fun _ => true) n.occurrences (n.calls v s) := by
    intro c hc hrefused
    rw [h c hc] at hrefused
    cases hrefused
  have hfilter := filter_visits hcovering
  rwa [List.filter_eq_self.mpr fun _ _ => rfl, List.filter_eq_self.mpr fun _ _ => rfl] at hfilter

/-- Nodes are listed in the order of their positions. -/
theorem pairwise_occurrences (n : Node) :
    n.occurrences.Pairwise fun o o' => Position.Earlier o.1 o'.1 := by
  -- A walk that goes everywhere enters the nodes as they are listed.
  have hagrees : ∀ c ∈ n.calls ({} : Visitor Node Unit) (), c.answer = true :=
    (Tree.runs_calls ({} : Visitor Node Unit) n.tree ()).agrees (fun _ _ => rfl) fun _ _ => rfl
  have hordered := (Tree.block_calls ({} : Visitor Node Unit) n.tree ()).closed
    Tree.closed_pairwise_entries
  rw [← visits_eq_occurrences hagrees]
  rw [← map_fst_visits, List.pairwise_map] at hordered
  exact hordered

end Node

end Arbor
