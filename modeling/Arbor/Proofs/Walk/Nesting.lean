import Arbor.Proofs.Walk.Calls
import Mathlib.Combinatorics.Enumerative.DyckWord

/-!
# Enter and leave are paired

The calls of a walk are well nested.  For each node that is visited, the calls for the node and for
what is below it stand together: first the enter, then the calls for what is below, then the leave
(`Bracketed`).  A node at which the visitor refuses to go on is left at once.

If an enter is read as a step up and a leave as a step down, the calls of a walk are a Dyck word:
there are as many leaves as enters, and at no time have there been more leaves than enters.

Both follow from what calls of parts of walks have in common, see `Tree.Closed`.
-/

namespace Arbor

variable {α σ : Type}

/-- The calls for the node at `x` and for what is below it stand together: one enter at the
beginning, one leave of the same node at the end, and nothing between them if the visitor refused
to go on. -/
inductive Bracketed : List (Call α) → Position → Prop where
  | intro (before inside after : List (Call α)) (x : Position) (a : α) (descend answer : Bool)
      (refused : descend = false → inside = [])
      (inner : ∀ c ∈ inside, x <+: c.position ∧ c.position ≠ x)
      (outer : ∀ c ∈ before ++ after, ¬ x <+: c.position) :
      Bracketed
        (before ++ ⟨.enter, x, a, descend⟩ :: (inside ++ ⟨.leave, x, a, answer⟩ :: after)) x

namespace Bracketed

variable {l l' : List (Call α)} {x : Position}

/-- What is bracketed stays so below a child of another node. -/
lemma lift (h : Bracketed l x) (k : Nat × Nat) : Bracketed (l.map (Call.lift [k])) (k :: x) := by
  have hcons : ∀ c : Call α, (k :: x) <+: (c.lift [k]).position ↔ x <+: c.position :=
    fun c => List.prefix_cons_inj k
  cases h with
  | intro before inside after x a descend answer refused inner outer =>
    have hrefused : descend = false → inside.map (Call.lift [k]) = [] := by
      intro hdescend
      rw [refused hdescend, List.map_nil]
    have hinner : ∀ c ∈ inside.map (Call.lift [k]),
        (k :: x) <+: c.position ∧ c.position ≠ k :: x := by
      intro c hc
      obtain ⟨d, hd, rfl⟩ := List.mem_map.mp hc
      obtain ⟨hbelow, hne⟩ := inner d hd
      exact ⟨(hcons d).mpr hbelow, fun heq => hne (List.cons.inj heq).2⟩
    have houter : ∀ c ∈ before.map (Call.lift [k]) ++ after.map (Call.lift [k]),
        ¬ (k :: x) <+: c.position := by
      intro c hc
      rw [← List.map_append] at hc
      obtain ⟨d, hd, rfl⟩ := List.mem_map.mp hc
      rw [hcons]
      exact outer d hd
    rw [List.map_append, List.map_cons, List.map_append, List.map_cons]
    exact intro _ _ _ (k :: x) a descend answer hrefused hinner houter

/-- Calls for other nodes may be added at the end. -/
lemma append_right (h : Bracketed l x) (hl' : ∀ c ∈ l', ¬ x <+: c.position) :
    Bracketed (l ++ l') x := by
  cases h with
  | intro before inside after x a descend answer refused inner outer =>
    have houter : ∀ c ∈ before ++ (after ++ l'), ¬ x <+: c.position := by
      intro c hc
      rw [← List.append_assoc] at hc
      exact (List.mem_append.mp hc).elim (outer c) (hl' c)
    have hadded := intro _ _ _ x a descend answer refused inner houter
    simpa only [List.append_assoc, List.cons_append] using hadded

/-- Calls for other nodes may be added at the beginning. -/
lemma append_left (h : Bracketed l' x) (hl : ∀ c ∈ l, ¬ x <+: c.position) :
    Bracketed (l ++ l') x := by
  cases h with
  | intro before inside after x a descend answer refused inner outer =>
    have houter : ∀ c ∈ (l ++ before) ++ after, ¬ x <+: c.position := by
      intro c hc
      rw [List.append_assoc] at hc
      exact (List.mem_append.mp hc).elim (hl c) (outer c)
    have hadded := intro _ _ _ x a descend answer refused inner houter
    simpa only [List.append_assoc] using hadded

end Bracketed

/-- What is below one child is not below another. -/
lemma Position.Beside.not_isPrefix {x y : Position} (h : Beside x y) :
    ¬ x <+: y ∧ ¬ y <+: x := by
  obtain ⟨k, x', k', y', rfl, rfl, hk⟩ := h
  have hne : k ≠ k' := by
    rintro rfl
    simp [Prod.lex_def] at hk
  exact ⟨fun hprefix => hne (List.cons_prefix_cons.mp hprefix).1,
    fun hprefix => hne (List.cons_prefix_cons.mp hprefix).1.symm⟩

namespace Tree

/-- The calls of a walk begin with the enter of the topmost node and end with its leave. -/
lemma Block.exists_ends {t : Tree α} {answer : Bool} {l : List (Call α)} (h : t.Block answer l) :
    ∃ descend inside,
      l = ⟨.enter, [], t.label, descend⟩ :: (inside ++ [⟨.leave, [], t.label, answer⟩]) := by
  cases h with
  | refused => exact ⟨false, [], rfl⟩
  | walked => exact ⟨true, _, rfl⟩

/-- In the calls of a walk, those for a node and for what is below it stand together. -/
theorem closed_bracketed : Closed fun l : List (Call α) => ∀ c ∈ l, Bracketed l c.position where
  nil := fun _ hc => nomatch hc
  append := by
    intro l l' hl hl' hbeside c hc
    rcases List.mem_append.mp hc with hc | hc
    · exact (hl c hc).append_right fun d hd => (hbeside c hc d hd).not_isPrefix.1
    · exact (hl' c hc).append_left fun d hd => (hbeside d hd c hc).not_isPrefix.2
  lift := by
    intro k l hl c hc
    obtain ⟨d, hd, rfl⟩ := List.mem_map.mp hc
    exact (hl d hd).lift k
  refused := by
    intro a answer c hc
    have hposition : c.position = [] := by
      simp only [List.mem_cons, List.not_mem_nil, or_false] at hc
      rcases hc with rfl | rfl <;> rfl
    rw [hposition]
    exact .intro [] [] [] [] a false answer (fun _ => rfl) nofun nofun
  walked := by
    intro a answer l hl hbelow c hc
    -- The topmost node brackets everything; what is below it is bracketed already.
    have htop : Bracketed (⟨.enter, [], a, true⟩ :: (l ++ [⟨.leave, [], a, answer⟩])) [] :=
      .intro [] l [] [] a true answer nofun (fun d hd => ⟨List.nil_prefix, hbelow d hd⟩) nofun
    rcases List.mem_cons.mp hc with rfl | hc
    · exact htop
    rcases List.mem_append.mp hc with hc | hc
    · have hnil : ¬ c.position <+: [] := fun h => hbelow c hc (List.prefix_nil.mp h)
      have hleave : Bracketed (l ++ [⟨.leave, [], a, answer⟩]) c.position :=
        (hl c hc).append_right (by simpa using hnil)
      exact hleave.append_left (l := [⟨.enter, [], a, true⟩]) (by simpa using hnil)
    · rw [List.mem_singleton.mp hc]
      exact htop

end Tree

/-! ## Enters and leaves as steps up and down -/

/-- An enter is a step up, a leave is a step down. -/
def Moment.step : Moment → DyckStep
  | enter => .U
  | leave => .D

/-- The two moments of a node step in different ways. -/
lemma Moment.step_injective : Function.Injective Moment.step := by
  intro m m' h
  cases m <;> cases m' <;> first | rfl | cases h

/-- The calls of a walk are a Dyck word. -/
theorem Tree.closed_dyckWord :
    Closed fun l : List (Call α) =>
      ∃ w : DyckWord, w.toList = (l.map Call.moment).map Moment.step where
  nil := ⟨0, rfl⟩
  append := by
    rintro l l' ⟨w, hw⟩ ⟨w', hw'⟩ -
    refine ⟨w + w', ?_⟩
    rw [List.map_append, List.map_append, ← hw, ← hw']
    rfl
  lift := by
    rintro k l ⟨w, hw⟩
    refine ⟨w, ?_⟩
    rw [hw, List.map_map, List.map_map, List.map_map]
    rfl
  refused := fun _ _ => ⟨(0 : DyckWord).nest, rfl⟩
  walked := by
    rintro a answer l ⟨w, hw⟩ -
    have hnest : w.nest.toList = [.U] ++ w.toList ++ [.D] := rfl
    refine ⟨w.nest, ?_⟩
    rw [hnest, hw]
    simp [Moment.step]

/-! ## Nodes -/

/-- The calls of a walk are well nested.  They begin with the enter of the node and end with its
leave, whose answer is the answer of the walk; the calls for each visited node and for what is below
it stand together, an enter first and a leave last; there are as many leaves as enters, and never
more leaves than enters so far. -/
theorem Node.calls_wellNested (v : Visitor Node σ) (n : Node) (s : σ) :
    v.Runs s (n.calls v s) (n.walk v s).2 ∧
      n.tree.Block (n.walk v s).1 (n.calls v s) ∧
      (∃ descend inside, n.calls v s =
        ⟨.enter, [], n, descend⟩ :: (inside ++ [⟨.leave, [], n, (n.walk v s).1⟩])) ∧
      (∀ c ∈ n.calls v s, Bracketed (n.calls v s) c.position) ∧
      ((n.calls v s).map Call.moment).count .enter =
        ((n.calls v s).map Call.moment).count .leave ∧
      ∀ i, (((n.calls v s).map Call.moment).take i).count .leave ≤
        (((n.calls v s).map Call.moment).take i).count .enter := by
  have hblock : n.tree.Block (n.walk v s).1 (n.calls v s) := Tree.block_calls v n.tree s
  obtain ⟨w, hw⟩ := hblock.closed Tree.closed_dyckWord
  have hcount : ∀ (l : List Moment) (m : Moment), (l.map Moment.step).count m.step = l.count m :=
    fun l m => List.count_map_of_injective l _ Moment.step_injective m
  refine ⟨Tree.runs_calls v n.tree s, hblock, ?_, hblock.closed Tree.closed_bracketed, ?_, ?_⟩
  · have hends := hblock.exists_ends
    rwa [Node.label_tree] at hends
  · have hequal := w.count_U_eq_count_D
    rw [hw] at hequal
    exact ((hcount _ .enter).symm.trans hequal).trans (hcount _ .leave)
  · intro i
    have hle := w.count_D_le_count_U i
    rw [hw, ← List.map_take] at hle
    exact ((hcount _ .leave).symm.trans_le hle).trans (hcount _ .enter).le

/-- The condition of a statement is entered and left, with its type between. -/
theorem Node.calls_wellNested_condition :
    ⟨.enter, [(3, 0)], .expr .placeholder, true⟩ ∈
        (Node.stmt {}).calls ({} : Visitor Node Unit) () ∧
      Bracketed ((Node.stmt {}).calls ({} : Visitor Node Unit) ()) [(3, 0)] := by
  have hmem : ⟨.enter, [(3, 0)], .expr .placeholder, true⟩ ∈
      (Node.stmt {}).calls ({} : Visitor Node Unit) () := List.mem_of_getElem? (i := 1) rfl
  obtain ⟨-, -, -, hbracketed, -⟩ := Node.calls_wellNested ({} : Visitor Node Unit) (.stmt {}) ()
  exact ⟨hmem, hbracketed _ hmem⟩

end Arbor
