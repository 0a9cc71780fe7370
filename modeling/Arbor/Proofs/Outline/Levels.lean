import Arbor.Outline
import Arbor.Proofs.Walk.Occurrences
import Mathlib.Data.List.MinMax

/-!
# The depth of the printer

The printer of outlines counts its depth up and down as it is called.  Which depth it has reached
depends on the calls only, not on their answers (`Outline.depths`), and in a walk each call finds
the depth that belongs to the position of its node (`Node.balanced_calls`).  For this it matters
that all nodes with children indent them, apart from the root, which is always on top.

So a walk ends at the depth at which it began, no step back goes below it, and no step goes deeper
than the height of the node.
-/

namespace Arbor

namespace Outline

/-- How much deeper than its own line the lines below a node are. -/
def shift (n : Node) : Nat :=
  (indents n).toNat

/-- The depth after a call. -/
def depthAfter (depth : Nat) (c : Call Node) : Nat :=
  match c.moment with
  | .enter => depth + shift c.node
  | .leave => depth - shift c.node

/-- Each call with the depth that it finds. -/
def depths (depth : Nat) : List (Call Node) → List (Call Node × Nat)
  | [] => []
  | c :: l => (c, depth) :: depths (depthAfter depth c) l

/-- The lines that are written in a call. -/
def written (p : Call Node × Nat) : List Line :=
  match p.1.moment with
  | .enter => (texts p.1.node).map (Line.mk p.2)
  | .leave => []

/-- A node indents what is below it by one step at most. -/
lemma shift_le_one (n : Node) : shift n ≤ 1 :=
  Bool.toNat_le _

/-! ### Runs of the printer -/

/-- Writing texts adds their lines at the current depth. -/
lemma foldl_line (texts : List String) (s : State) :
    texts.foldl State.line s =
      { s with lines := s.lines ++ (texts.map (Line.mk s.depth)).toArray } := by
  induction texts generalizing s with
  | nil => simp
  | cons text texts ih => simp [ih, State.line]

/-- One call of the printer. -/
lemma ask_printer (c : Call Node) (s : State) :
    (printer.ask c.moment c.node s).2.depth = depthAfter s.depth c ∧
      (printer.ask c.moment c.node s).2.lines.toList = s.lines.toList ++ written (c, s.depth) := by
  obtain ⟨moment, x, n, answer⟩ := c
  cases moment with
  | enter =>
    simp only [Visitor.ask, printer, foldl_line, depthAfter, shift, written]
    cases indents n <;> simp [State.indent]
  | leave =>
    simp only [Visitor.ask, printer, depthAfter, shift, written]
    cases indents n <;> simp [State.outdent]

/-- The printer along any calls: the depth is counted up and down, and lines are added at the depths
that the calls find. -/
lemma state_of_runs {s s' : State} {l : List (Call Node)} (h : printer.Runs s l s') :
    s'.depth = l.foldl depthAfter s.depth ∧
      s'.lines.toList = s.lines.toList ++ (depths s.depth l).flatMap written := by
  induction h with
  | nil => simp [depths]
  | @cons s s' s'' c l hask _ ih =>
    obtain ⟨hdepth, hlines⟩ := ask_printer c s
    rw [hask] at hdepth hlines
    obtain ⟨ihdepth, ihlines⟩ := ih
    rw [ihdepth, ihlines, hdepth, hlines, List.foldl_cons, depths, List.flatMap_cons,
      List.append_assoc]
    exact ⟨rfl, rfl⟩

/-- A second run begins at the depth where the first one ends. -/
lemma depths_append (d : Nat) (l l' : List (Call Node)) :
    depths d (l ++ l') = depths d l ++ depths (l.foldl depthAfter d) l' := by
  induction l generalizing d with
  | nil => rfl
  | cons c l ih => rw [List.cons_append, depths, depths, ih, List.foldl_cons, List.cons_append]

/-- A call finds the depth that the calls before it have led to. -/
lemma mem_depths_of_runs {s s' : State} {before : List (Call Node)}
    (h : printer.Runs s before s') (c : Call Node) (after : List (Call Node)) :
    (c, s'.depth) ∈ depths s.depth (before ++ c :: after) := by
  rw [depths_append, ← (state_of_runs h).1]
  exact List.mem_append_right _ List.mem_cons_self

/-- The depths belong to the calls of the run. -/
lemma mem_of_mem_depths {d : Nat} {l : List (Call Node)} {p : Call Node × Nat}
    (h : p ∈ depths d l) : p.1 ∈ l := by
  induction l generalizing d with
  | nil => cases h
  | cons c l ih =>
    rcases List.mem_cons.mp h with rfl | h
    · exact List.mem_cons_self
    · exact List.mem_cons_of_mem _ (ih h)

/-- Positions do not matter for the depth. -/
lemma foldl_depthAfter_lift (x : Position) (d : Nat) (l : List (Call Node)) :
    (l.map (Call.lift x)).foldl depthAfter d = l.foldl depthAfter d :=
  List.foldl_map

/-- The depths do not depend on positions. -/
lemma depths_lift (x : Position) (d : Nat) (l : List (Call Node)) :
    depths d (l.map (Call.lift x)) = (depths d l).map fun p => (p.1.lift x, p.2) := by
  induction l generalizing d with
  | nil => rfl
  | cons c l ih =>
    rw [List.map_cons, depths, depths, List.map_cons, ih]
    rfl

/-! ### Depths and positions -/

/-- How much deeper than the line of the topmost node the line at a position is. -/
def level (top : Node) : Position → Nat
  | [] => 0
  | _ :: x => shift top + x.length

/-- What a call has yet to take back. -/
def due (c : Call Node) : Nat :=
  match c.moment with
  | .enter => 0
  | .leave => shift c.node

/-- The calls lead back to the depth at which they began, and each finds a depth that is related to
this one. -/
def Balanced (P : Nat → Call Node → Nat → Prop) (l : List (Call Node)) : Prop :=
  ∀ d, l.foldl depthAfter d = d ∧ ∀ p ∈ depths d l, P d p.1 p.2

section Balanced

variable {P Q : Nat → Call Node → Nat → Prop} {l l' : List (Call Node)}

/-- A run without calls is balanced. -/
lemma Balanced.nil : Balanced P [] :=
  fun _ => ⟨rfl, fun _ hp => nomatch hp⟩

/-- Two balanced runs in a row are balanced. -/
lemma Balanced.append (h : Balanced P l) (h' : Balanced P l') : Balanced P (l ++ l') := by
  intro d
  obtain ⟨hback, hdepths⟩ := h d
  obtain ⟨hback', hdepths'⟩ := h' d
  rw [List.foldl_append, depths_append, hback]
  exact ⟨hback', fun p hp => (List.mem_append.mp hp).elim (hdepths p) (hdepths' p)⟩

/-- A balanced run stays balanced as seen from the parent, with a property that allows for the
longer positions. -/
lemma Balanced.lift (h : Balanced P l) {x : Position}
    (hPQ : ∀ d, ∀ c ∈ l, ∀ e, P d c e → Q d (c.lift x) e) : Balanced Q (l.map (Call.lift x)) := by
  intro d
  obtain ⟨hback, hdepths⟩ := h d
  rw [foldl_depthAfter_lift, depths_lift]
  refine ⟨hback, fun p hp => ?_⟩
  obtain ⟨q, hq, rfl⟩ := List.mem_map.mp hp
  exact hPQ d q.1 (mem_of_mem_depths hq) q.2 (hdepths q hq)

/-- The calls for a node between its enter and its leave. -/
lemma Balanced.nest (h : Balanced P l) {a : Node} {descend answer : Bool}
    (henter : ∀ d, Q d ⟨.enter, [], a, descend⟩ d)
    (hPQ : ∀ d, ∀ c ∈ l, ∀ e, P (d + shift a) c e → Q d c e)
    (hleave : ∀ d, Q d ⟨.leave, [], a, answer⟩ (d + shift a)) :
    Balanced Q (⟨.enter, [], a, descend⟩ :: (l ++ [⟨.leave, [], a, answer⟩])) := by
  intro d
  obtain ⟨hback, hdepths⟩ := h (d + shift a)
  have henterd : depthAfter d ⟨.enter, [], a, descend⟩ = d + shift a := rfl
  rw [List.foldl_cons, List.foldl_append, depths, depths_append, henterd, hback]
  refine ⟨Nat.add_sub_cancel .., fun p hp => ?_⟩
  rcases List.mem_cons.mp hp with rfl | hp
  · exact henter d
  rcases List.mem_append.mp hp with hp | hp
  · exact hPQ d p.1 (mem_of_mem_depths hp) p.2 (hdepths p hp)
  · rw [List.mem_singleton.mp hp]
    exact hleave d

end Balanced

/-- Nodes that have calls below them indent, the topmost node apart. -/
def Stepped (l : List (Call Node)) : Prop :=
  ∀ c ∈ l, ∀ c' ∈ l, ∀ k x k' y, c.position = k :: x → c'.position = k :: x ++ k' :: y →
    indents c.node = true

/-- Fewer calls are stepped if all of them are. -/
lemma Stepped.mono {l l' : List (Call Node)} (h : Stepped l') (hl : l ⊆ l') : Stepped l :=
  fun c hc c' hc' => h c (hl hc) c' (hl hc')

/-- Calls that are stepped as seen from the parent are stepped as seen from the child. -/
lemma Stepped.of_lift {k : Nat × Nat} {l : List (Call Node)}
    (h : Stepped (l.map (Call.lift [k]))) : Stepped l := by
  intro c hc c' hc' k₁ x k₂ y hx hy
  exact h (c.lift [k]) (List.mem_map_of_mem hc) (c'.lift [k]) (List.mem_map_of_mem hc') k (k₁ :: x)
    k₂ y (congrArg (k :: ·) hx) (congrArg (k :: ·) hy)

end Outline

namespace Tree

open Outline

variable {t : Tree Node} {answer : Bool} {l : List (Call Node)}

/-- Below another node, the level of a call is the length of its position, as the node on top of the
calls indents if there are calls below it. -/
lemma Block.add_one_eq_of_lift {k : Nat × Nat} (h : t.Block answer l)
    (hl : Stepped (l.map (Call.lift [k]))) (d : Nat) (c : Call Node) (hc : c ∈ l) (e : Nat)
    (he : e = d + level t.label c.position + due c) :
    e + 1 = d + (c.lift [k]).position.length + due (c.lift [k]) := by
  have hlevel : level t.label c.position = c.position.length := by
    cases hx : c.position with
    | nil => rfl
    | cons k' x =>
      obtain ⟨b, a, htop⟩ := h.entered_nil
      have hlabel := (h.of_mem_nil htop).1
      have hindents : indents a = true :=
        hl _ (List.mem_map_of_mem htop) (c.lift [k]) (List.mem_map_of_mem hc) k [] k' x rfl
          (congrArg (k :: ·) hx)
      rw [level, shift, hlabel, hindents, List.length_cons, Bool.toNat_true, Nat.add_comm]
  have hlength : (c.lift [k]).position.length = c.position.length + 1 := rfl
  have hdue : due (c.lift [k]) = due c := rfl
  rw [hlength, hdue, he, hlevel]
  omega

mutual

/-- The calls of a walk lead back to the depth at which they began, and each finds the depth that
belongs to its position; a leave also finds what the enter has added. -/
theorem Block.balanced {t : Tree Node} {answer : Bool} {l : List (Call Node)} :
    t.Block answer l → Stepped l →
      Balanced (fun d c e => e = d + level t.label c.position + due c) l
  | .refused, _ =>
    Balanced.nest (P := fun _ _ _ => False) .nil (fun _ => rfl) (fun _ _ hc => nomatch hc)
      fun _ => rfl
  | @Block.walked _ a gs answer l h, hl => by
    have hinside : l ⊆ ⟨.enter, [], a, true⟩ :: (l ++ [⟨.leave, [], a, answer⟩]) :=
      List.subset_cons_of_subset _ (List.subset_append_left _ _)
    refine (Blocks.balanced h (hl.mono hinside)).nest (fun _ => rfl) ?_ fun _ => rfl
    intro d c hc e he
    obtain ⟨k, j, x, -, hx⟩ := h.exists_position c hc
    rw [hx, List.length_cons] at he
    rw [hx, level, label]
    omega

/-- The same for groups: the node that they belong to has added its share. -/
theorem Blocks.balanced {g : Nat} {gs : List (List (Tree Node))} {l : List (Call Node)} :
    Blocks g gs l → Stepped l → Balanced (fun d c e => e + 1 = d + c.position.length + due c) l
  | .nil, _ => .nil
  | .cons h h', hl =>
    (Row.balanced h (hl.mono (List.subset_append_left _ _))).append
      (Blocks.balanced h' (hl.mono (List.subset_append_right _ _)))

/-- In the walk of a row of trees each call finds the depth that belongs to its position. -/
theorem Row.balanced {g i : Nat} {ts : List (Tree Node)} {l : List (Call Node)} :
    Row g i ts l → Stepped l → Balanced (fun d c e => e + 1 = d + c.position.length + due c) l
  | .nil, _ => .nil
  | .last h, hl => (Block.balanced h hl.of_lift).lift (h.add_one_eq_of_lift hl)
  | .next h h', hl => by
    have hfirst := hl.mono (List.subset_append_left _ _)
    exact ((Block.balanced h hfirst.of_lift).lift (h.add_one_eq_of_lift hfirst)).append
      (Row.balanced h' (hl.mono (List.subset_append_right _ _)))

end

end Tree

/-! ### Nodes -/

namespace Node

open Outline

variable {σ : Type}

/-- The number of levels of the tree of a node.  A node without children has the height one. -/
def height (n : Node) : Nat :=
  (n.occurrences.map fun o => o.1.length + 1).foldr max 0

/-- A position in a node is shorter than the node is high. -/
lemma length_lt_height {n m : Node} {x : Position} (h : n.at? x = some m) :
    x.length < n.height := by
  have hmem : x.length + 1 ∈ n.occurrences.map fun o => o.1.length + 1 :=
    List.mem_map.mpr ⟨(x, m), mem_occurrences_iff.mpr h, rfl⟩
  exact List.le_max_of_le' 0 hmem (Nat.le_refl _)

/-- A root is nobody's child. -/
lemma child?_ne_root {n c : Node} {k : Nat × Nat} (h : n.child? k = some c) (r : Root) :
    c ≠ .root r := by
  have hslots : ∀ slot ∈ n.slots, .root r ∉ slot.children := by
    cases n <;> simp [slots, Slot.children]
  rintro rfl
  obtain ⟨slot, hslot, hc⟩ := exists_slot_of_child? h
  exact hslots slot hslot hc

/-- A root stands on top only. -/
lemma at?_cons_ne_root {n m : Node} {k : Nat × Nat} {x : Position} (h : n.at? (k :: x) = some m)
    (r : Root) : m ≠ .root r := by
  obtain ⟨c, hc, hm⟩ := Option.bind_eq_some_iff.mp h
  induction x generalizing n k c with
  | nil =>
    cases hm
    exact child?_ne_root hc r
  | cons k' x ih =>
    obtain ⟨c', hc', hm'⟩ := Option.bind_eq_some_iff.mp hm
    exact ih hm c' hc' hm'

/-- Nodes with children indent, apart from the root. -/
lemma indents_of_child? {n c : Node} {k : Nat × Nat} (h : n.child? k = some c)
    (hn : ∀ r, n ≠ .root r) : indents n = true := by
  cases n with
  | root r => exact absurd rfl (hn r)
  | mod m => cases h
  | type t => cases h
  | _ => rfl

/-- In a walk only the topmost node may leave what is below it at its own depth. -/
lemma stepped_calls (v : Visitor Node σ) (n : Node) (s : σ) : Stepped (n.calls v s) := by
  intro c hc c' hc' k x k' y hx hy
  have hat := at?_of_mem_calls hc
  have hat' := at?_of_mem_calls hc'
  rw [hx] at hat
  rw [hy, at?_append, hat, Option.bind_some] at hat'
  obtain ⟨child, hchild, -⟩ := Option.bind_eq_some_iff.mp hat'
  exact indents_of_child? hchild (at?_cons_ne_root hat)

/-- The calls of a walk lead the printer back to the depth at which they began, and each call finds
the depth that belongs to the position of its node. -/
theorem balanced_calls (v : Visitor Node σ) (n : Node) (s : σ) :
    Balanced (fun d c e => e = d + level n c.position + due c) (n.calls v s) := by
  have hbalanced := (Tree.block_calls v n.tree s).balanced (n.stepped_calls v s)
  rwa [label_tree] at hbalanced

/-- The level of a position is at most its length. -/
lemma level_le_length (n : Node) (x : Position) : level n x ≤ x.length := by
  cases x with
  | nil => exact Nat.le_refl 0
  | cons k x =>
    have hshift := shift_le_one n
    rw [level, List.length_cons]
    omega

/-- While the printer is at work on a node, it stays between the depth at which it began and the
height of the node, and where it goes back a level it has gone forth before. -/
theorem depth_of_runs_printer (n : Node) (s : State) {before after : List (Call Node)}
    (h : n.calls printer s = before ++ after) :
    ∃ s', printer.Runs s before s' ∧ s.depth ≤ s'.depth ∧ s'.depth ≤ s.depth + n.height ∧
      ∀ c ∈ after.head?, c.moment = .leave → indents c.node = true → s.depth < s'.depth := by
  have hruns := Tree.runs_calls printer n.tree s
  obtain ⟨hback, hdepths⟩ := n.balanced_calls printer s s.depth
  rw [show n.tree.calls printer s = before ++ after from h] at hruns
  obtain ⟨s', hbefore, -⟩ := hruns.split
  refine ⟨s', hbefore, ?_⟩
  cases after with
  | nil =>
    rw [h, List.append_nil, ← (state_of_runs hbefore).1] at hback
    rw [hback]
    exact ⟨Nat.le_refl _, Nat.le_add_right _ _, fun _ hc => nomatch hc⟩
  | cons c after =>
    have hmem := mem_depths_of_runs hbefore c after
    rw [← h] at hmem
    have hdepth : s'.depth = s.depth + level n c.position + due c := hdepths _ hmem
    have hheight : c.position.length < n.height :=
      length_lt_height (at?_of_mem_calls (mem_of_mem_depths hmem))
    have hlevel := n.level_le_length c.position
    have hdue : due c ≤ 1 := by
      unfold due
      split
      · exact Nat.zero_le 1
      · exact shift_le_one _
    refine ⟨by omega, by omega, fun c' hc' hleave hindents => ?_⟩
    cases hc'
    have hone : due c = 1 := by
      rw [due, hleave, shift, hindents, Bool.toNat_true]
    omega

end Node

end Arbor
