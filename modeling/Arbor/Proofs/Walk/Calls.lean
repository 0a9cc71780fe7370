import Arbor.Node.Shape
import Mathlib.Tactic.Lemma

/-!
# The calls of a walk

A walk calls its visitor twice for each node that it meets.  To speak about the calls, a tree is
walked with its nodes marked by their positions, and the visitor is wrapped so that it writes down
each call with its answer.  `Tree.calls` is what has been written down in the end.  The wrapping
changes nothing: the visitor goes through the same states and gives the same answers as in the
walk without it (`Visitor.Runs`).

Which calls a walk makes depends on the answers only.  `Tree.Block` says how: the calls of a tree
are its enter, then the calls of its groups if the enter was answered with yes, then its leave; the
calls of a group are the calls of its trees one after the other, up to the first whose leave was
answered with no.  Every statement about the calls of walks is derived from `Tree.block_calls`;
those that do not mention the tree follow from the closure properties in `Tree.Block.closed`.
-/

namespace Arbor

variable {α σ : Type}

/-- Where a node stands in a tree: on the way down from the top, the number of the group and the
place in the group for each step. -/
abbrev Position := List (Nat × Nat)

/-- `x` and `y` are below two children of the same node, `x` below the earlier one. -/
def Position.Beside (x y : Position) : Prop :=
  ∃ k x' k' y', x = k :: x' ∧ y = k' :: y' ∧ Prod.Lex (· < ·) (· < ·) k k'

/-- When a visitor is called. -/
inductive Moment where
  | enter
  | leave
  deriving DecidableEq, Inhabited

/-- A call of a visitor: when it was made, for which node, and what the answer was. -/
structure Call (α : Type) where
  moment : Moment
  position : Position
  node : α
  answer : Bool

/-- The same call, as seen from a tree in which the tree of the call stands at `p`. -/
def Call.lift (p : Position) (c : Call α) : Call α :=
  { c with position := p ++ c.position }

/-- Nothing in front leaves the calls as they are. -/
lemma Call.map_lift_nil (l : List (Call α)) : l.map (Call.lift []) = l := by
  induction l with
  | nil => rfl
  | cons c l ih => rw [List.map_cons, ih]; rfl

/-- Two positions in front are one. -/
lemma Call.map_lift_lift (p q : Position) (l : List (Call α)) :
    (l.map (Call.lift q)).map (Call.lift p) = l.map (Call.lift (p ++ q)) := by
  rw [List.map_map]
  refine List.map_congr_left fun c _ => ?_
  simp [Call.lift, Function.comp_apply]

/-! ## Visitors that are written down -/

namespace Visitor

/-- Call the visitor at the given moment. -/
def ask (v : Visitor α σ) : Moment → α → σ → Bool × σ
  | .enter => v.enter
  | .leave => v.leave

/-- Call the visitor for a node with a mark of its position, and write the call down. -/
def log (v : Visitor α σ) (moment : Moment) (x : Position × α) (s : σ × List (Call α)) :
    Bool × σ × List (Call α) :=
  let (answer, s') := v.ask moment x.2 s.1
  (answer, s', s.2 ++ [⟨moment, x.1, x.2, answer⟩])

/-- The visitor, with all its calls written down. -/
def logged (v : Visitor α σ) : Visitor (Position × α) (σ × List (Call α)) where
  enter := v.log .enter
  leave := v.log .leave

/-- Entering a node is logged with its answer. -/
lemma logged_enter {v : Visitor α σ} {a : α} {s s' : σ} {answer : Bool}
    (h : v.enter a s = (answer, s')) (p : Position) (log : List (Call α)) :
    v.logged.enter (p, a) (s, log) = (answer, s', log ++ [⟨.enter, p, a, answer⟩]) := by
  simp only [logged, Visitor.log, ask, h]

/-- Leaving a node is logged with its answer. -/
lemma logged_leave (v : Visitor α σ) (a : α) (s : σ) (p : Position) (log : List (Call α)) :
    v.logged.leave (p, a) (s, log) =
      ((v.leave a s).1, (v.leave a s).2, log ++ [⟨.leave, p, a, (v.leave a s).1⟩]) :=
  rfl

/-- `v.Runs s calls s'`: called as in the list, the visitor gives the answers in the list and gets
from the state `s` to the state `s'`. -/
inductive Runs (v : Visitor α σ) : σ → List (Call α) → σ → Prop where
  | nil {s : σ} : Runs v s [] s
  | cons {s s' s'' : σ} {c : Call α} {l : List (Call α)} :
      v.ask c.moment c.node s = (c.answer, s') → Runs v s' l s'' → Runs v s (c :: l) s''

/-- One run can follow another. -/
lemma Runs.append {v : Visitor α σ} {s s' s'' : σ} {l l' : List (Call α)} (h : v.Runs s l s')
    (h' : v.Runs s' l' s'') : v.Runs s (l ++ l') s'' := by
  induction h with
  | nil => exact h'
  | cons hask _ ih => exact .cons hask (ih h')

/-- A run can be interrupted between any two calls. -/
lemma Runs.split {v : Visitor α σ} {s s'' : σ} {l l' : List (Call α)}
    (h : v.Runs s (l ++ l') s'') : ∃ s', v.Runs s l s' ∧ v.Runs s' l' s'' := by
  induction l generalizing s with
  | nil => exact ⟨s, .nil, h⟩
  | cons c l ih =>
    cases h with
    | cons hask hrest =>
      obtain ⟨s', hl, hl'⟩ := ih hrest
      exact ⟨s', .cons hask hl, hl'⟩

/-- The answers are those that the visitor gives in some state. -/
lemma Runs.exists_ask {v : Visitor α σ} {s s' : σ} {l : List (Call α)} (h : v.Runs s l s')
    {c : Call α} (hc : c ∈ l) : ∃ s₁ s₂, v.ask c.moment c.node s₁ = (c.answer, s₂) := by
  induction h with
  | nil => cases hc
  | @cons s s' _ _ _ hask _ ih =>
    rcases List.mem_cons.mp hc with rfl | hc
    · exact ⟨s, s', hask⟩
    · exact ih hc

/-- Positions are nothing to a visitor. -/
lemma Runs.lift {v : Visitor α σ} {s s' : σ} {l : List (Call α)} (h : v.Runs s l s')
    (p : Position) : v.Runs s (l.map (Call.lift p)) s' := by
  induction h with
  | nil => exact .nil
  | cons hask _ ih => exact .cons hask ih

end Visitor

namespace Tree

mutual

/-- Mark each node with its position, if the tree stands at `p`. -/
def placed (p : Position) : Tree α → Tree (Position × α)
  | node a gs => node (p, a) (placedGroups p 0 gs)

/-- Mark the nodes of groups, the first of which has the number `g`. -/
def placedGroups (p : Position) (g : Nat) :
    List (List (Tree α)) → List (List (Tree (Position × α)))
  | [] => []
  | ts :: gs => placedGroup p g 0 ts :: placedGroups p (g + 1) gs

/-- Mark the nodes of the trees of group `g`, the first of which is at place `i`. -/
def placedGroup (p : Position) (g i : Nat) : List (Tree α) → List (Tree (Position × α))
  | [] => []
  | t :: ts => placed (p ++ [(g, i)]) t :: placedGroup p g (i + 1) ts

end

/-- The calls that a walk makes, in order. -/
def calls (v : Visitor α σ) (t : Tree α) (s : σ) : List (Call α) :=
  ((t.placed []).walk v.logged (s, [])).2.2

/-! ## Which calls are made -/

/-- A node at which the visitor refuses to go on is left in the state in which it was entered. -/
lemma walk_node_of_refused {v : Visitor α σ} {a : α} {gs : List (List (Tree α))} {s s₁ : σ}
    (h : v.enter a s = (false, s₁)) : (node a gs).walk v s = v.leave a s₁ := by
  simp [walk, h]

/-- Any other node is left in the state that its groups lead to. -/
lemma walk_node_of_entered {v : Visitor α σ} {a : α} {gs : List (List (Tree α))} {s s₁ : σ}
    (h : v.enter a s = (true, s₁)) : (node a gs).walk v s = v.leave a (walkGroups v gs s₁) := by
  simp [walk, h]

mutual

/-- `t.Block answer calls`: the calls are those of a walk of the tree that ends with the given
answer.  Positions count from the tree. -/
inductive Block : Tree α → Bool → List (Call α) → Prop where
  | refused {a : α} {gs : List (List (Tree α))} {answer : Bool} :
      Block (node a gs) answer [⟨.enter, [], a, false⟩, ⟨.leave, [], a, answer⟩]
  | walked {a : α} {gs : List (List (Tree α))} {answer : Bool} {l : List (Call α)} :
      Blocks 0 gs l →
      Block (node a gs) answer (⟨.enter, [], a, true⟩ :: (l ++ [⟨.leave, [], a, answer⟩]))

/-- `Blocks g gs calls`: the calls are those of a walk of groups, the first of which has the number
`g`.  A group is walked whatever happened in the groups before it. -/
inductive Blocks : Nat → List (List (Tree α)) → List (Call α) → Prop where
  | nil {g : Nat} : Blocks g [] []
  | cons {g : Nat} {ts : List (Tree α)} {gs : List (List (Tree α))} {l l' : List (Call α)} :
      Row g 0 ts l → Blocks (g + 1) gs l' → Blocks g (ts :: gs) (l ++ l')

/-- `Row g i ts calls`: the calls are those of a walk of trees of group `g`, the first of which is
at place `i`.  A tree that answers no is the last. -/
inductive Row : Nat → Nat → List (Tree α) → List (Call α) → Prop where
  | nil {g i : Nat} : Row g i [] []
  | last {g i : Nat} {t : Tree α} {ts : List (Tree α)} {l : List (Call α)} :
      Block t false l → Row g i (t :: ts) (l.map (Call.lift [(g, i)]))
  | next {g i : Nat} {t : Tree α} {ts : List (Tree α)} {l l' : List (Call α)} :
      Block t true l → Row g (i + 1) ts l' →
      Row g i (t :: ts) (l.map (Call.lift [(g, i)]) ++ l')

end

mutual

/-- Walking a marked tree with a logged visitor is walking the tree with the visitor, and what is
written down are the calls of such a walk. -/
theorem walk_placed (v : Visitor α σ) :
    ∀ (t : Tree α) (p : Position) (s : σ) (log : List (Call α)), ∃ l,
      (t.placed p).walk v.logged (s, log) =
        ((t.walk v s).1, (t.walk v s).2, log ++ l.map (Call.lift p)) ∧
      Block t (t.walk v s).1 l ∧ v.Runs s l (t.walk v s).2
  | node a gs, p, s, log => by
    rcases henter : v.enter a s with ⟨descend, s₁⟩
    have hlogged := Visitor.logged_enter henter p log
    cases descend with
    | false =>
      rw [walk_node_of_refused henter, placed, walk_node_of_refused hlogged]
      refine ⟨[⟨.enter, [], a, false⟩, ⟨.leave, [], a, (v.leave a s₁).1⟩], ?_, .refused,
        .cons henter (.cons rfl .nil)⟩
      simp [Visitor.logged_leave, Call.lift]
    | true =>
      obtain ⟨l, hl, hblocks, hruns⟩ :=
        walkGroups_placed v gs p 0 s₁ (log ++ [⟨.enter, p, a, true⟩])
      rw [walk_node_of_entered henter, placed, walk_node_of_entered hlogged, hl]
      refine ⟨⟨.enter, [], a, true⟩ :: (l ++ [⟨.leave, [], a, _⟩]), ?_, .walked hblocks,
        .cons henter (hruns.append (.cons rfl .nil))⟩
      simp [Visitor.logged_leave, Call.lift]

/-- The same for groups.  Nothing is assumed of what was written down before: a group begins with
what the groups before it have left. -/
theorem walkGroups_placed (v : Visitor α σ) :
    ∀ (gs : List (List (Tree α))) (p : Position) (g : Nat) (s : σ) (log : List (Call α)), ∃ l,
      walkGroups v.logged (placedGroups p g gs) (s, log) =
        (walkGroups v gs s, log ++ l.map (Call.lift p)) ∧
      Blocks g gs l ∧ v.Runs s l (walkGroups v gs s)
  | [], p, g, s, log => ⟨[], by simp [placedGroups, walkGroups], .nil, .nil⟩
  | ts :: gs, p, g, s, log => by
    obtain ⟨l, hl, hrow, hruns⟩ := walkGroup_placed v ts p g 0 s log
    obtain ⟨l', hl', hblocks, hruns'⟩ :=
      walkGroups_placed v gs p (g + 1) (walkGroup v ts s) (log ++ l.map (Call.lift p))
    refine ⟨l ++ l', ?_, .cons hrow hblocks, ?_⟩
    · rw [placedGroups, walkGroups, hl, hl', walkGroups, List.map_append, List.append_assoc]
    · rw [walkGroups]
      exact hruns.append hruns'

/-- The same for the trees of one group. -/
theorem walkGroup_placed (v : Visitor α σ) :
    ∀ (ts : List (Tree α)) (p : Position) (g i : Nat) (s : σ) (log : List (Call α)), ∃ l,
      walkGroup v.logged (placedGroup p g i ts) (s, log) =
        (walkGroup v ts s, log ++ l.map (Call.lift p)) ∧
      Row g i ts l ∧ v.Runs s l (walkGroup v ts s)
  | [], p, g, i, s, log => ⟨[], by simp [placedGroup, walkGroup], .nil, .nil⟩
  | t :: ts, p, g, i, s, log => by
    obtain ⟨l, hl, hblock, hruns⟩ := walk_placed v t (p ++ [(g, i)]) s log
    rw [← Call.map_lift_lift] at hl
    rw [placedGroup, walkGroup, walkGroup, hl]
    generalize t.walk v s = outcome at hblock hruns
    obtain ⟨answer, s'⟩ := outcome
    cases answer with
    | false => exact ⟨_, rfl, .last hblock, hruns.lift _⟩
    | true =>
      obtain ⟨l', hl', hrow, hruns'⟩ := walkGroup_placed v ts p g (i + 1) s'
        (log ++ (l.map (Call.lift [(g, i)])).map (Call.lift p))
      refine ⟨l.map (Call.lift [(g, i)]) ++ l', ?_, .next hblock hrow, ?_⟩
      · simp only
        rw [hl', List.map_append, List.append_assoc]
      · exact (hruns.lift _).append hruns'

end

/-- The calls of a walk, and the way of the visitor through them. -/
lemma block_calls_and_runs (v : Visitor α σ) (t : Tree α) (s : σ) :
    t.Block (t.walk v s).1 (t.calls v s) ∧ v.Runs s (t.calls v s) (t.walk v s).2 := by
  obtain ⟨l, hl, hblock, hruns⟩ := walk_placed v t [] s []
  have hcalls : t.calls v s = l := by
    rw [calls, hl, List.nil_append, Call.map_lift_nil]
  rw [hcalls]
  exact ⟨hblock, hruns⟩

/-- The calls that a walk makes, and the answer that it ends with. -/
theorem block_calls (v : Visitor α σ) (t : Tree α) (s : σ) :
    t.Block (t.walk v s).1 (t.calls v s) :=
  (block_calls_and_runs v t s).1

/-- The visitor gets through the calls as it gets through the walk. -/
theorem runs_calls (v : Visitor α σ) (t : Tree α) (s : σ) :
    v.Runs s (t.calls v s) (t.walk v s).2 :=
  (block_calls_and_runs v t s).2

/-! ## Statements about calls only -/

/-- Calls of trees of a group stand below their places in the group. -/
lemma Row.exists_position {g i : Nat} {ts : List (Tree α)} {l : List (Call α)} (h : Row g i ts l) :
    ∀ c ∈ l, ∃ j x, i ≤ j ∧ c.position = (g, j) :: x := by
  induction ts generalizing i l with
  | nil =>
    cases h
    exact fun _ hc => nomatch hc
  | cons t ts ih =>
    have hlift : ∀ l' : List (Call α), ∀ c ∈ l'.map (Call.lift [(g, i)]),
        ∃ j x, i ≤ j ∧ c.position = (g, j) :: x := by
      intro l' c hc
      obtain ⟨c', -, rfl⟩ := List.mem_map.mp hc
      exact ⟨i, c'.position, Nat.le_refl _, rfl⟩
    cases h with
    | last hblock => exact hlift _
    | next hblock hrow =>
      intro c hc
      rcases List.mem_append.mp hc with hc | hc
      · exact hlift _ c hc
      · obtain ⟨j, x, hj, hx⟩ := ih hrow c hc
        exact ⟨j, x, Nat.le_of_succ_le hj, hx⟩

/-- Calls of groups stand below places in the groups. -/
lemma Blocks.exists_position {g : Nat} {gs : List (List (Tree α))} {l : List (Call α)}
    (h : Blocks g gs l) : ∀ c ∈ l, ∃ k j x, g ≤ k ∧ c.position = (k, j) :: x := by
  induction gs generalizing g l with
  | nil =>
    cases h
    exact fun _ hc => nomatch hc
  | cons ts gs ih =>
    cases h with
    | cons hrow hblocks =>
      intro c hc
      rcases List.mem_append.mp hc with hc | hc
      · obtain ⟨j, x, -, hx⟩ := hrow.exists_position c hc
        exact ⟨g, j, x, Nat.le_refl _, hx⟩
      · obtain ⟨k, j, x, hk, hx⟩ := ih hblocks c hc
        exact ⟨k, j, x, Nat.le_of_succ_le hk, hx⟩

/-- A property of lists of calls that carries over from the parts of a walk to the walk. -/
structure Closed (P : List (Call α) → Prop) : Prop where
  nil : P []
  append : ∀ {l l' : List (Call α)}, P l → P l' →
    (∀ c ∈ l, ∀ d ∈ l', Position.Beside c.position d.position) → P (l ++ l')
  lift : ∀ (k : Nat × Nat) {l : List (Call α)}, P l → P (l.map (Call.lift [k]))
  refused : ∀ (a : α) (answer : Bool), P [⟨.enter, [], a, false⟩, ⟨.leave, [], a, answer⟩]
  walked : ∀ (a : α) (answer : Bool) {l : List (Call α)}, P l → (∀ c ∈ l, c.position ≠ []) →
    P (⟨.enter, [], a, true⟩ :: (l ++ [⟨.leave, [], a, answer⟩]))

mutual

/-- The calls of a walk have each property that carries over from parts of walks to walks. -/
theorem Block.closed {P : List (Call α) → Prop} (hP : Closed P) {t : Tree α} {answer : Bool}
    {l : List (Call α)} : t.Block answer l → P l
  | .refused => hP.refused _ _
  | .walked h => by
    refine hP.walked _ _ (Blocks.closed hP h) fun c hc => ?_
    obtain ⟨k, j, x, -, hx⟩ := h.exists_position c hc
    rw [hx]
    exact List.cons_ne_nil _ _

/-- So do the calls of a walk in the slots of a node. -/
theorem Blocks.closed {P : List (Call α) → Prop} (hP : Closed P) {g : Nat}
    {gs : List (List (Tree α))} {l : List (Call α)} : Blocks g gs l → P l
  | .nil => hP.nil
  | .cons h h' => by
    refine hP.append (Row.closed hP h) (Blocks.closed hP h') fun c hc d hd => ?_
    obtain ⟨j, x, -, hx⟩ := h.exists_position c hc
    obtain ⟨k, j', y, hk, hy⟩ := h'.exists_position d hd
    exact ⟨_, _, _, _, hx, hy, .left _ _ hk⟩

/-- So do the calls of a walk in a row of trees. -/
theorem Row.closed {P : List (Call α) → Prop} (hP : Closed P) {g i : Nat} {ts : List (Tree α)}
    {l : List (Call α)} : Row g i ts l → P l
  | .nil => hP.nil
  | .last h => hP.lift _ (Block.closed hP h)
  | .next h h' => by
    refine hP.append (hP.lift _ (Block.closed hP h)) (Row.closed hP h') fun c hc d hd => ?_
    obtain ⟨c', -, rfl⟩ := List.mem_map.mp hc
    obtain ⟨j, y, hj, hy⟩ := h'.exists_position d hd
    exact ⟨_, _, _, _, rfl, hy, .right _ hj⟩

end

end Tree

/-- The calls that a walk of a node makes, in order. -/
def Node.calls (v : Visitor Node σ) (n : Node) (s : σ) : List (Call Node) :=
  n.tree.calls v s

end Arbor
