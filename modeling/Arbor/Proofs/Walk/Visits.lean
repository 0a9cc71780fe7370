import Arbor.Proofs.Walk.Calls

/-!
# Which nodes a walk visits

A node is visited exactly if it is the node that is walked, or if its parent was visited and agreed
to go on and, in case the node is a member of a list, all earlier members of the list agreed when
they were left.  Nothing else counts: neither what happened in other lists of the parent nor what
happened below the earlier members.

The proof looks at the calls of a walk that belong to one child of the topmost node
(`Call.under`).  They are either none at all or the calls of a walk of the child
(`Tree.Block.under_cases`), which of the two is said by `Tree.Block.entered_child_iff`, and so the
statement follows for all positions by induction on the position of the parent
(`Tree.Block.entered_iff`).

`Node.slots` is the table of the lists of children and of the single children of each node, in the
order in which they are walked.
-/

namespace Arbor

variable {α σ : Type}

/-! ## The calls below a child -/

namespace Call

/-- The call as seen from the child at `k`, if it belongs to the child. -/
def strip? (k : Nat × Nat) (c : Call α) : Option (Call α) :=
  match c.position with
  | [] => none
  | k' :: x => if k' = k then some { c with position := x } else none

/-- The calls that belong to the child at `k`, as seen from the child. -/
def under (k : Nat × Nat) (l : List (Call α)) : List (Call α) :=
  l.filterMap (strip? k)

/-- A call belongs to a child exactly if it is a call of the child with the place in front. -/
lemma strip?_eq_some_iff {k : Nat × Nat} {c d : Call α} :
    c.strip? k = some d ↔ c = d.lift [k] := by
  obtain ⟨moment, position, node, answer⟩ := c
  obtain ⟨moment', position', node', answer'⟩ := d
  cases position with
  | nil => simp [strip?, lift]
  | cons k' x => by_cases hk : k' = k <;> simp [strip?, lift, hk]

/-- The calls of a child are those that are there with its place in front. -/
@[simp] lemma mem_under {k : Nat × Nat} {l : List (Call α)} {c : Call α} :
    c ∈ under k l ↔ c.lift [k] ∈ l := by
  simp only [under, List.mem_filterMap, strip?_eq_some_iff, exists_eq_right]

/-- The calls of a child in two runs are put together. -/
lemma under_append (k : Nat × Nat) (l l' : List (Call α)) :
    under k (l ++ l') = under k l ++ under k l' :=
  List.filterMap_append

/-- Seen from the child, its own calls are as they were. -/
lemma under_lift (k : Nat × Nat) (l : List (Call α)) : under k (l.map (lift [k])) = l := by
  induction l with
  | nil => rfl
  | cons c l ih =>
    rw [List.map_cons, under, List.filterMap_cons, strip?_eq_some_iff.mpr rfl]
    exact congrArg (c :: ·) ih

/-- Calls that stand below other children do not belong to the child. -/
lemma under_eq_nil {k : Nat × Nat} {l : List (Call α)}
    (h : ∀ c ∈ l, ∀ x, c.position ≠ k :: x) : under k l = [] := by
  rw [List.eq_nil_iff_forall_not_mem]
  intro c hc
  exact h _ (mem_under.mp hc) _ rfl

/-- The calls of another child do not belong to this one. -/
lemma under_lift_of_ne {k k' : Nat × Nat} (hk : k' ≠ k) (l : List (Call α)) :
    under k (l.map (lift [k'])) = [] := by
  refine under_eq_nil fun c hc x hx => hk ?_
  obtain ⟨d, -, rfl⟩ := List.mem_map.mp hc
  exact (List.cons.inj hx).1

/-- The calls for all but the first tree of a group. -/
lemma under_lift_append (g i j : Nat) (l l' : List (Call α)) :
    under (g, i + (j + 1)) (l.map (lift [(g, i)]) ++ l') = under (g, i + 1 + j) l' := by
  have hother : (g, i) ≠ (g, i + (j + 1)) := by simp
  have hplace : i + (j + 1) = i + 1 + j := by omega
  rw [under_append, under_lift_of_ne hother, List.nil_append, hplace]

end Call

/-- The visitor was called at the given moment for the node at `x`, with the given answer. -/
def Answered (l : List (Call α)) (moment : Moment) (x : Position) (answer : Bool) : Prop :=
  ∃ a, ⟨moment, x, a, answer⟩ ∈ l

/-- The visitor was called to enter the node at `x`. -/
def Entered (l : List (Call α)) (x : Position) : Prop :=
  ∃ answer, Answered l .enter x answer

section Calls

variable {l l' : List (Call α)} {moment : Moment} {k k' : Nat × Nat} {x : Position}
  {answer : Bool}

/-- Where nothing is called, nothing is answered. -/
lemma not_answered_nil : ¬ Answered ([] : List (Call α)) moment x answer := by
  rintro ⟨a, ha⟩
  cases ha

/-- Where nothing is called, nothing is entered. -/
lemma not_entered_nil : ¬ Entered ([] : List (Call α)) x := by
  rintro ⟨answer, hanswer⟩
  exact not_answered_nil hanswer

/-- What is answered in two runs is answered in one of them. -/
lemma answered_append :
    Answered (l ++ l') moment x answer ↔
      Answered l moment x answer ∨ Answered l' moment x answer := by
  simp only [Answered, List.mem_append, exists_or]

/-- The answers of a child are those with its place in front. -/
lemma answered_under :
    Answered (Call.under k l) moment x answer ↔ Answered l moment (k :: x) answer := by
  simp only [Answered, Call.mem_under]
  rfl

/-- The calls of a child answer for its place only. -/
lemma answered_lift :
    Answered (l.map (Call.lift [k])) moment (k' :: x) answer ↔
      k = k' ∧ Answered l moment x answer := by
  rw [← answered_under]
  by_cases hk : k = k'
  · rw [hk, Call.under_lift]
    exact (and_iff_right rfl).symm
  · rw [Call.under_lift_of_ne hk]
    exact ⟨fun h => absurd h not_answered_nil, fun h => absurd h.1 hk⟩

/-- What is entered in two runs is entered in one of them. -/
lemma entered_append : Entered (l ++ l') x ↔ Entered l x ∨ Entered l' x := by
  simp only [Entered, answered_append, exists_or]

/-- What is entered below a child is entered with its place in front. -/
lemma entered_under : Entered (Call.under k l) x ↔ Entered l (k :: x) := by
  simp only [Entered, answered_under]

/-- The calls of a child enter below its place only. -/
lemma entered_lift : Entered (l.map (Call.lift [k])) (k' :: x) ↔ k = k' ∧ Entered l x := by
  simp only [Entered, answered_lift, exists_and_left]

end Calls

/-! ## Children -/

/-- There is a member at each place of a list, if there is a list. -/
lemma exists_bind_getElem?_iff {β γ : Type} {o : Option β} {f : β → List γ} {i : Nat} :
    (∃ c, (o.bind fun b => (f b)[i]?) = some c) ↔ ∃ b, o = some b ∧ i < (f b).length := by
  constructor
  · rintro ⟨c, hc⟩
    obtain ⟨b, hb, hc⟩ := Option.bind_eq_some_iff.mp hc
    obtain ⟨hi, -⟩ := List.getElem?_eq_some_iff.mp hc
    exact ⟨b, hb, hi⟩
  · rintro ⟨b, hb, hi⟩
    exact ⟨(f b)[i], Option.bind_eq_some_iff.mpr ⟨b, hb, List.getElem?_eq_getElem hi⟩⟩

namespace Tree

/-- The child at place `k.2` of group `k.1`. -/
def child? (t : Tree α) (k : Nat × Nat) : Option (Tree α) :=
  t.groups[k.1]?.bind (·[k.2]?)

/-- The tree at a position. -/
def at? : Tree α → Position → Option (Tree α)
  | t, [] => some t
  | t, k :: x => (t.child? k).bind (·.at? x)

section Children

variable {t : Tree α} {ts : List (Tree α)} {gs : List (List (Tree α))} {answer : Bool}
  {l : List (Call α)} {g i : Nat}

/-- A walk enters the topmost node. -/
lemma Block.entered_nil (h : t.Block answer l) : Entered l [] := by
  cases h with
  | refused => exact ⟨false, _, List.mem_cons_self⟩
  | walked => exact ⟨true, _, List.mem_cons_self⟩

/-- The topmost node itself is no part of its children. -/
lemma under_walked (k : Nat × Nat) (a : α) (l : List (Call α)) :
    Call.under k (⟨.enter, [], a, true⟩ :: (l ++ [⟨.leave, [], a, answer⟩])) =
      Call.under k l := by
  rw [← List.singleton_append, Call.under_append, Call.under_append]
  exact List.append_nil _

/-- The calls for the topmost node: they have its label, and the leave has the answer that the walk
ends with. -/
lemma Block.of_mem_nil {moment : Moment} {a : α} {b : Bool} (h : t.Block answer l)
    (hmem : ⟨moment, [], a, b⟩ ∈ l) : t.label = a ∧ (moment = .leave → b = answer) := by
  cases h with
  | refused =>
    simp only [List.mem_cons, List.not_mem_nil, or_false] at hmem
    rcases hmem with heq | heq
    · cases heq
      exact ⟨rfl, nofun⟩
    · cases heq
      exact ⟨rfl, fun _ => rfl⟩
  | walked hblocks =>
    rcases List.mem_cons.mp hmem with heq | hmem
    · cases heq
      exact ⟨rfl, nofun⟩
    rcases List.mem_append.mp hmem with hinside | hmem
    · obtain ⟨g, j, x, -, hx⟩ := hblocks.exists_position _ hinside
      cases hx
    · cases List.mem_singleton.mp hmem
      exact ⟨rfl, fun _ => rfl⟩

/-- A walk leaves the topmost node with the answer that it ends with. -/
lemma Block.answered_leave_nil_iff {answer' : Bool} (h : t.Block answer l) :
    Answered l .leave [] answer' ↔ answer' = answer := by
  constructor
  · rintro ⟨a, hmem⟩
    exact (h.of_mem_nil hmem).2 rfl
  · rintro rfl
    cases h with
    | refused => exact ⟨_, List.mem_cons_of_mem _ List.mem_cons_self⟩
    | walked => exact ⟨_, List.mem_cons_of_mem _ (List.mem_append_right _ List.mem_cons_self)⟩

/-- The trees of a group have no calls at places of other groups or at earlier places. -/
lemma Row.under_eq_nil (h : Row g i ts l) {k : Nat × Nat} (hk : k.1 ≠ g ∨ k.2 < i) :
    Call.under k l = [] := by
  refine Call.under_eq_nil fun c hc x hx => ?_
  obtain ⟨j, y, hj, hy⟩ := h.exists_position c hc
  rw [hx] at hy
  cases hy
  rcases hk with hk | hk
  · exact hk rfl
  · exact absurd hj (Nat.not_le.mpr hk)

/-- Groups have no calls at places of earlier groups. -/
lemma Blocks.under_eq_nil (h : Blocks g gs l) {k : Nat × Nat} (hk : k.1 < g) :
    Call.under k l = [] := by
  refine Call.under_eq_nil fun c hc x hx => ?_
  obtain ⟨j, j', y, hj, hy⟩ := h.exists_position c hc
  rw [hx] at hy
  cases hy
  exact absurd hj (Nat.not_le.mpr hk)

/-- A tree of a group is entered exactly if all before it agreed when they were left. -/
lemma Row.entered_iff (h : Row g i ts l) (j : Nat) :
    Entered l [(g, i + j)] ↔
      j < ts.length ∧ ∀ j' < j, Answered l .leave [(g, i + j')] true := by
  induction ts generalizing i l j with
  | nil =>
    cases h
    exact ⟨fun h => absurd h not_entered_nil, fun hj => absurd hj.1 (Nat.not_lt_zero j)⟩
  | cons t ts ih =>
    cases h with
    | @last _ _ _ _ l hblock =>
      have hfirst : ¬ Answered (l.map (Call.lift [(g, i)])) .leave [(g, i + 0)] true := by
        rw [Nat.add_zero, answered_lift, hblock.answered_leave_nil_iff]
        exact fun hanswer => Bool.noConfusion hanswer.2
      rw [entered_lift]
      constructor
      · rintro ⟨hplace, -⟩
        have hj : j = 0 := by simpa using hplace
        subst hj
        exact ⟨Nat.zero_lt_succ _, fun j' hj' => absurd hj' (Nat.not_lt_zero j')⟩
      · rintro ⟨-, hbefore⟩
        cases j with
        | zero => exact ⟨rfl, hblock.entered_nil⟩
        | succ j => exact absurd (hbefore 0 (Nat.zero_lt_succ j)) hfirst
    | @next _ _ _ _ l l' hblock hrow =>
      -- The first tree has the place `i`, the others are those of the row from `i + 1`.
      have hfirst : Answered (l.map (Call.lift [(g, i)]) ++ l') .leave [(g, i + 0)] true := by
        rw [answered_append, answered_lift, hblock.answered_leave_nil_iff]
        exact .inl ⟨rfl, rfl⟩
      have hlater : ∀ j,
          Answered (l.map (Call.lift [(g, i)]) ++ l') .leave [(g, i + (j + 1))] true ↔
            Answered l' .leave [(g, i + 1 + j)] true := by
        intro j
        rw [← answered_under, Call.under_lift_append, answered_under]
      cases j with
      | zero =>
        refine ⟨fun _ => ⟨Nat.zero_lt_succ _, fun j' hj' => absurd hj' (Nat.not_lt_zero j')⟩, ?_⟩
        intro _
        rw [entered_append, entered_lift]
        exact .inl ⟨rfl, hblock.entered_nil⟩
      | succ j =>
        rw [← entered_under, Call.under_lift_append, entered_under, ih hrow j, List.length_cons,
          Nat.succ_lt_succ_iff, Nat.forall_lt_succ_left]
        simp only [hlater]
        exact and_congr_right fun _ => (and_iff_right hfirst).symm

/-- Groups do not touch each other: a tree is entered exactly if all before it in its own group
agreed when they were left. -/
lemma Blocks.entered_iff (h : Blocks g gs l) (j i : Nat) :
    Entered l [(g + j, i)] ↔
      (∃ ts, gs[j]? = some ts ∧ i < ts.length) ∧
        ∀ i' < i, Answered l .leave [(g + j, i')] true := by
  induction gs generalizing g l j with
  | nil =>
    cases h
    refine ⟨fun h => absurd h not_entered_nil, ?_⟩
    rintro ⟨⟨ts, hts, -⟩, -⟩
    cases hts
  | cons ts gs ih =>
    cases h with
    | @cons _ _ _ l l' hrow hblocks =>
      cases j with
      | zero =>
        have hunder : ∀ i, Call.under (g + 0, i) (l ++ l') = Call.under (g, i) l := by
          intro i
          rw [Call.under_append, hblocks.under_eq_nil (Nat.lt_succ_self g), List.append_nil]
          rfl
        have hrow := hrow.entered_iff i
        simp only [Nat.zero_add] at hrow
        simp only [← answered_under, ← entered_under, hunder] at hrow ⊢
        rw [hrow]
        simp
      | succ j =>
        have hunder : ∀ i, Call.under (g + (j + 1), i) (l ++ l') =
            Call.under (g + 1 + j, i) l' := by
          intro i
          have hother : g + (j + 1) ≠ g := by omega
          rw [Call.under_append, hrow.under_eq_nil (.inl hother), List.nil_append,
            Nat.add_right_comm g 1 j]
          rfl
        have hrest := ih hblocks j
        simp only [← answered_under, ← entered_under, hunder] at hrest ⊢
        rw [hrest]
        rfl

/-- A child is entered exactly if its parent agreed when it was entered, and all before it in the
same group agreed when they were left. -/
lemma Block.entered_child_iff (h : t.Block answer l) (g i : Nat) :
    Entered l [(g, i)] ↔
      (∃ u, t.child? (g, i) = some u) ∧ Answered l .enter [] true ∧
        ∀ j < i, Answered l .leave [(g, j)] true := by
  cases h with
  | @refused a gs answer =>
    have hrefused : ¬ Answered [⟨.enter, [], a, false⟩, ⟨.leave, [], a, answer⟩] .enter []
        true := by
      simp [Answered]
    refine ⟨?_, fun h => absurd h.2.1 hrefused⟩
    rintro ⟨b, c, hc⟩
    simp at hc
  | @walked a gs answer l hblocks =>
    have hchildren := hblocks.entered_iff g i
    have hentered : Answered (⟨.enter, [], a, true⟩ :: (l ++ [⟨.leave, [], a, answer⟩])) .enter []
        true := ⟨a, List.mem_cons_self⟩
    rw [and_iff_right hentered, child?, exists_bind_getElem?_iff]
    simp only [Nat.zero_add] at hchildren
    simp only [← answered_under, ← entered_under, under_walked] at hchildren ⊢
    exact hchildren

/-- The calls that belong to one place of a group. -/
lemma Row.under_cases (h : Row g i ts l) (k : Nat × Nat) :
    Call.under k l = [] ∨
      ∃ j u answer, ts[j]? = some u ∧ k = (g, i + j) ∧ u.Block answer (Call.under k l) := by
  induction ts generalizing i l with
  | nil =>
    cases h
    exact .inl rfl
  | cons t ts ih =>
    cases h with
    | @last _ _ _ _ l hblock =>
      by_cases hk : (g, i) = k
      · subst hk
        rw [Call.under_lift]
        exact .inr ⟨0, t, false, rfl, rfl, hblock⟩
      · exact .inl (Call.under_lift_of_ne hk l)
    | @next _ _ _ _ l l' hblock hrow =>
      rw [Call.under_append]
      by_cases hk : (g, i) = k
      · subst hk
        rw [Call.under_lift, hrow.under_eq_nil (.inr (Nat.lt_succ_self i)), List.append_nil]
        exact .inr ⟨0, t, true, rfl, rfl, hblock⟩
      · rw [Call.under_lift_of_ne hk, List.nil_append]
        rcases ih hrow with hnil | ⟨j, u, answer, hu, hplace, hblock⟩
        · exact .inl hnil
        · refine .inr ⟨j + 1, u, answer, hu, ?_, hblock⟩
          rw [hplace, Nat.add_right_comm i 1 j]
          rfl

/-- The calls that belong to one place of the groups. -/
lemma Blocks.under_cases (h : Blocks g gs l) (k : Nat × Nat) :
    Call.under k l = [] ∨
      ∃ j ts u answer, gs[j]? = some ts ∧ k.1 = g + j ∧ ts[k.2]? = some u ∧
        u.Block answer (Call.under k l) := by
  induction gs generalizing g l with
  | nil =>
    cases h
    exact .inl rfl
  | cons ts gs ih =>
    cases h with
    | @cons _ _ _ l l' hrow hblocks =>
      rw [Call.under_append]
      by_cases hk : k.1 = g
      · have hbefore : k.1 < g + 1 := Nat.lt_succ_of_le (Nat.le_of_eq hk)
        rw [hblocks.under_eq_nil hbefore, List.append_nil]
        rcases hrow.under_cases k with hnil | ⟨j, u, answer, hu, hplace, hblock⟩
        · exact .inl hnil
        · have hj : k.2 = j := by rw [hplace, Nat.zero_add]
          exact .inr ⟨0, ts, u, answer, rfl, hk, hj ▸ hu, hblock⟩
      · rw [hrow.under_eq_nil (.inl hk), List.nil_append]
        rcases ih hblocks with hnil | ⟨j, ts', u, answer, hts', hj, hu, hblock⟩
        · exact .inl hnil
        · refine .inr ⟨j + 1, ts', u, answer, hts', ?_, hu, hblock⟩
          rw [hj, Nat.add_right_comm g 1 j]
          rfl

/-- The calls that belong to a child are none or those of a walk of the child. -/
lemma Block.under_cases (h : t.Block answer l) (k : Nat × Nat) :
    Call.under k l = [] ∨
      ∃ u answer', t.child? k = some u ∧ u.Block answer' (Call.under k l) := by
  cases h with
  | refused => exact .inl rfl
  | @walked a gs answer l hblocks =>
    rw [under_walked]
    rcases hblocks.under_cases k with hnil | ⟨j, ts, u, answer', hts, hj, hu, hblock⟩
    · exact .inl hnil
    · rw [Nat.zero_add] at hj
      refine .inr ⟨u, answer', ?_, hblock⟩
      exact Option.bind_eq_some_iff.mpr ⟨ts, hj ▸ hts, hu⟩

end Children

/-! ## All positions -/

section Positions

variable {t : Tree α} {answer : Bool} {l : List (Call α)}

/-- A node other than the topmost is entered exactly if its parent agreed when it was entered, and
all before it in the same group agreed when they were left. -/
theorem Block.entered_iff (h : t.Block answer l) (parent : Position) (g i : Nat) :
    Entered l (parent ++ [(g, i)]) ↔
      (∃ u, t.at? (parent ++ [(g, i)]) = some u) ∧ Answered l .enter parent true ∧
        ∀ j < i, Answered l .leave (parent ++ [(g, j)]) true := by
  induction parent generalizing t answer l with
  | nil =>
    have hchild := h.entered_child_iff g i
    simpa [at?, Option.bind_eq_some_iff] using hchild
  | cons k parent ih =>
    simp only [List.cons_append, ← entered_under, ← answered_under, at?]
    rcases h.under_cases k with hnil | ⟨u, answer', hu, hblock⟩
    · rw [hnil]
      exact ⟨fun h => absurd h not_entered_nil, fun h => absurd h.2.1 not_answered_nil⟩
    · rw [ih hblock, hu, Option.bind_some]

/-- Each call is for the node that stands at its position. -/
theorem Block.at?_position (h : t.Block answer l) {c : Call α} (hc : c ∈ l) :
    ∃ u, t.at? c.position = some u ∧ u.label = c.node := by
  obtain ⟨moment, x, a, b⟩ := c
  induction x generalizing t answer l with
  | nil => exact ⟨t, rfl, (h.of_mem_nil hc).1⟩
  | cons k x ih =>
    have hunder : ⟨moment, x, a, b⟩ ∈ Call.under k l := Call.mem_under.mpr hc
    rcases h.under_cases k with hnil | ⟨u, answer', hu, hblock⟩
    · rw [hnil] at hunder
      cases hunder
    · obtain ⟨w, hw, hlabel⟩ := ih hblock hunder
      exact ⟨w, Option.bind_eq_some_iff.mpr ⟨u, hu, hw⟩, hlabel⟩

end Positions

end Tree

/-! ## The order of the visits -/

/-- A position is earlier than another if it is above it or below an earlier child of a common
node: the order in which a walk without refusals meets the nodes. -/
def Position.Earlier (x y : Position) : Prop :=
  List.Lex (Prod.Lex (· < ·) (· < ·)) x y

/-- A position that lies beside another one, before it, comes earlier. -/
lemma Position.Beside.earlier {x y : Position} (h : Beside x y) : Earlier x y := by
  obtain ⟨k, x', k', y', rfl, rfl, hk⟩ := h
  exact .rel hk

/-- An earlier position is another one. -/
lemma Position.Earlier.ne {x y : Position} (h : Earlier x y) : x ≠ y := by
  rintro rfl
  have hirrefl : ∀ k : Nat × Nat, ¬ Prod.Lex (· < ·) (· < ·) k k := by
    simp [Prod.lex_def]
  exact List.lex_irrefl hirrefl x h

/-- The positions of the nodes that are entered, in the order of the calls. -/
def entries (l : List (Call α)) : List Position :=
  (l.filter (·.moment = .enter)).map Call.position

/-- What is entered in two runs is entered in their order. -/
lemma entries_append (l l' : List (Call α)) : entries (l ++ l') = entries l ++ entries l' := by
  rw [entries, List.filter_append, List.map_append, entries, entries]

/-- What is entered below a child has the place of the child in front. -/
lemma entries_lift (k : Nat × Nat) (l : List (Call α)) :
    entries (l.map (Call.lift [k])) = (entries l).map (k :: ·) := by
  simp only [entries, List.filter_map, List.map_map]
  rfl

/-- What is entered is the position of a call. -/
lemma exists_of_mem_entries {l : List (Call α)} {x : Position} (h : x ∈ entries l) :
    ∃ c ∈ l, c.position = x := by
  obtain ⟨c, hc, rfl⟩ := List.mem_map.mp h
  exact ⟨c, (List.mem_filter.mp hc).1, rfl⟩

/-- The nodes are entered in the order of their positions. -/
theorem Tree.closed_pairwise_entries :
    Closed fun l : List (Call α) => (entries l).Pairwise Position.Earlier where
  nil := .nil
  append := by
    intro l l' hl hl' hbeside
    rw [entries_append, List.pairwise_append]
    refine ⟨hl, hl', fun x hx y hy => ?_⟩
    obtain ⟨c, hc, rfl⟩ := exists_of_mem_entries hx
    obtain ⟨d, hd, rfl⟩ := exists_of_mem_entries hy
    exact (hbeside c hc d hd).earlier
  lift := by
    intro k l hl
    rw [entries_lift, List.pairwise_map]
    exact hl.imp fun h => .cons h
  refused := fun a answer => List.pairwise_singleton _ _
  walked := by
    intro a answer l hl hbelow
    have hentries : entries (⟨.enter, [], a, true⟩ :: (l ++ [⟨.leave, [], a, answer⟩])) =
        [] :: entries l := by
      rw [← List.singleton_append, entries_append, entries_append]
      exact congrArg ([] :: ·) (List.append_nil _)
    rw [hentries, List.pairwise_cons]
    refine ⟨fun x hx => ?_, hl⟩
    obtain ⟨c, hc, rfl⟩ := exists_of_mem_entries hx
    obtain ⟨k, x, hx⟩ := List.exists_cons_of_ne_nil (hbelow c hc)
    rw [hx]
    exact .nil

/-! ## Nodes -/

/-- What a node offers to a walk at once: a list of children, or a child that is always there. -/
inductive Slot where
  | many (children : List Node)
  | one (child : Node)

/-- The children in a slot. -/
def Slot.children : Slot → List Node
  | many children => children
  | one child => [child]

/-- The slots of each node, in the order in which they are walked. -/
def Node.slots : Node → List Slot
  | root r => [.many (r.namespaces.map ns)]
  | ns n => [.many (n.modifiers.map mod), .many (n.declarations.map decl)]
  | decl d => [.many (d.modifiers.map mod), .many (d.parents.map type), .many (d.fields.map var),
      .many (d.methods.map method), .many (d.nested.map decl)]
  | method m => [.many (m.modifiers.map mod), .many (m.arguments.map var), .one (type m.returnType),
      .many (m.statements.map stmt), .many (m.content.map expr)]
  | var v => [.many (v.modifiers.map mod), .one (type v.type), .one (expr v.initializer)]
  | stmt s => [.many (s.expressions.map expr), .many (s.initializations.map expr),
      .many (s.updates.map expr), .one (expr s.condition), .many (s.statements.map stmt)]
  | expr e => [.many (e.arguments.map expr), .many (e.declared.map var),
      .many (e.operands.map expr), .one (type e.newType)]
  | mod _ => []
  | type _ => []

/-- The child at place `k.2` of slot `k.1`. -/
def Node.child? (n : Node) (k : Nat × Nat) : Option Node :=
  (n.slots[k.1]?).bind fun slot => slot.children[k.2]?

/-- The node at a position below another. -/
def Node.at? : Node → Position → Option Node
  | n, [] => some n
  | n, k :: x => (n.child? k).bind (·.at? x)

/-- The tree of a node has a group for each slot. -/
lemma Node.groups_tree (n : Node) :
    n.tree.groups = n.slots.map fun slot => slot.children.map Node.tree := by
  cases n with
  | root r => simp [Node.tree, Root.tree, Tree.groups, slots, Slot.children]
  | ns n => simp [Node.tree, Namespace.tree, Tree.groups, slots, Slot.children]
  | decl d => cases d; simp [Node.tree, Declaration.tree, Tree.groups, slots, Slot.children]
  | method m => simp [Node.tree, Method.tree, Tree.groups, slots, Slot.children]
  | var v => cases v; simp [Node.tree, Variable.tree, Tree.groups, slots, Slot.children]
  | stmt s => cases s; simp [Node.tree, Statement.tree, Tree.groups, slots, Slot.children]
  | expr e => cases e; simp [Node.tree, Expression.tree, Tree.groups, slots, Slot.children]
  | mod m => rfl
  | type t => rfl

/-- The children of a node are those of its tree. -/
lemma Node.child?_tree (n : Node) (k : Nat × Nat) :
    n.tree.child? k = (n.child? k).map Node.tree := by
  rw [Tree.child?, Node.groups_tree, List.getElem?_map, Option.bind_map, Node.child?,
    Option.map_bind]
  simp only [Function.comp_def, List.getElem?_map]

/-- What stands below a node stands below its tree. -/
lemma Node.at?_tree (n : Node) (x : Position) : n.tree.at? x = (n.at? x).map Node.tree := by
  induction x generalizing n with
  | nil => rfl
  | cons k x ih =>
    rw [Tree.at?, Node.child?_tree, Node.at?, Option.bind_map, Option.map_bind]
    exact Option.bind_congr fun m _ => ih m

/-- What stands below a position stands below what is at the position. -/
lemma Node.at?_append (n : Node) (x y : Position) :
    n.at? (x ++ y) = (n.at? x).bind (·.at? y) := by
  induction x generalizing n with
  | nil => rfl
  | cons k x ih =>
    rw [List.cons_append, Node.at?, Node.at?, Option.bind_assoc]
    exact Option.bind_congr fun m _ => ih m

/-- What stands one step below a position is a child of what stands there. -/
lemma Node.at?_append_singleton (n : Node) (parent : Position) (k : Nat × Nat) :
    n.at? (parent ++ [k]) = (n.at? parent).bind (·.child? k) := by
  simp [Node.at?_append, Node.at?]

/-- A step down leads to a child in one of the slots. -/
lemma Node.exists_slot_of_child? {n c : Node} {k : Nat × Nat} (h : n.child? k = some c) :
    ∃ slot ∈ n.slots, c ∈ slot.children := by
  obtain ⟨slot, hslot, hc⟩ := Option.bind_eq_some_iff.mp h
  exact ⟨slot, List.mem_of_getElem? hslot, List.mem_of_getElem? hc⟩

/-- There is nothing below a type. -/
lemma Node.at?_type {t : TypeRef} {x : Position} {m : Node}
    (h : (Node.type t).at? x = some m) : x = [] ∧ m = .type t := by
  cases x with
  | nil => exact ⟨rfl, (Option.some.inj h).symm⟩
  | cons k x => cases h

/-- There is nothing but the unnamed type below the placeholder. -/
lemma Node.at?_cons_placeholder {k : Nat × Nat} {x : Position} {m : Node}
    (h : (Node.expr .placeholder).at? (k :: x) = some m) : x = [] ∧ m = .type {} := by
  obtain ⟨c, hc, hm⟩ := Option.bind_eq_some_iff.mp h
  obtain ⟨slot, hslot, hc⟩ := Node.exists_slot_of_child? hc
  have hblank : c = .type {} := by
    simp only [Node.slots, Expression.placeholder, List.map_nil, List.mem_cons,
      List.not_mem_nil, or_false] at hslot
    rcases hslot with rfl | rfl | rfl | rfl
    · cases hc
    · cases hc
    · cases hc
    · exact List.mem_singleton.mp hc
  subst hblank
  exact Node.at?_type hm

/-- Below a placeholder there is at most a type without a name. -/
lemma Node.at?_placeholder {x : Position} {m : Node}
    (h : (Node.expr .placeholder).at? x = some m) :
    x.length ≤ 1 ∧ (m = .expr .placeholder ∨ m = .type {}) := by
  cases x with
  | nil => exact ⟨Nat.zero_le 1, .inl (Option.some.inj h).symm⟩
  | cons k x =>
    obtain ⟨rfl, rfl⟩ := Node.at?_cons_placeholder h
    exact ⟨Nat.le_refl 1, .inr rfl⟩

/-- Each call of a walk is for the node that stands at its position. -/
lemma Node.at?_of_mem_calls {v : Visitor Node σ} {n : Node} {s : σ} {c : Call Node}
    (hc : c ∈ n.calls v s) : n.at? c.position = some c.node := by
  obtain ⟨u, hu, hlabel⟩ := (Tree.block_calls v n.tree s).at?_position hc
  rw [Node.at?_tree] at hu
  obtain ⟨m, hm, rfl⟩ := Option.map_eq_some_iff.mp hu
  rw [hm, ← hlabel, Node.label_tree]

/-- The positions of the tree of a node, by slots. -/
lemma Node.exists_at?_tree_iff (n : Node) (parent : Position) (g i : Nat) :
    (∃ u, n.tree.at? (parent ++ [(g, i)]) = some u) ↔
      ∃ m slot, n.at? parent = some m ∧ m.slots[g]? = some slot ∧ i < slot.children.length := by
  rw [Node.at?_tree, Node.at?_append_singleton, ← Option.isSome_iff_exists, Option.isSome_map,
    Option.isSome_iff_exists]
  simp only [Option.bind_eq_some_iff]
  constructor
  · rintro ⟨c, m, hm, hc⟩
    obtain ⟨slot, hslot, hi⟩ := exists_bind_getElem?_iff.mp ⟨c, hc⟩
    exact ⟨m, slot, hm, hslot, hi⟩
  · rintro ⟨m, slot, hm, hslot, hi⟩
    obtain ⟨c, hc⟩ := exists_bind_getElem?_iff.mpr ⟨slot, hslot, hi⟩
    exact ⟨c, m, hm, hc⟩

/-- Which nodes a walk visits.  The visitor is called for nodes of the tree only, and the topmost
node is entered.  Any other node is entered exactly if its parent was entered and agreed to go on
and the node is a single child, or all before it in the same list agreed when they were left.
Nodes are entered in the order of the slots, and none is entered twice. -/
theorem Node.calls_visit (v : Visitor Node σ) (n : Node) (s : σ) :
    v.Runs s (n.calls v s) (n.walk v s).2 ∧
      (∀ c ∈ n.calls v s, n.at? c.position = some c.node) ∧
      Entered (n.calls v s) [] ∧
      (∀ (parent : Position) (g i : Nat),
        Entered (n.calls v s) (parent ++ [(g, i)]) ↔
          ∃ m slot, n.at? parent = some m ∧ m.slots[g]? = some slot ∧ i < slot.children.length ∧
            Answered (n.calls v s) .enter parent true ∧
            ((∃ child, slot = .one child) ∨
              ∀ j < i, Answered (n.calls v s) .leave (parent ++ [(g, j)]) true)) ∧
      (entries (n.calls v s)).Pairwise Position.Earlier ∧ (entries (n.calls v s)).Nodup := by
  have hblock : n.tree.Block (n.walk v s).1 (n.calls v s) := Tree.block_calls v n.tree s
  have hordered := hblock.closed Tree.closed_pairwise_entries
  refine ⟨Tree.runs_calls v n.tree s, fun c hc => Node.at?_of_mem_calls hc, hblock.entered_nil, ?_,
    hordered, ?_⟩
  · intro parent g i
    rw [hblock.entered_iff, Node.exists_at?_tree_iff]
    constructor
    · rintro ⟨⟨m, slot, hm, hslot, hi⟩, hparent, hbefore⟩
      exact ⟨m, slot, hm, hslot, hi, hparent, .inr hbefore⟩
    · rintro ⟨m, slot, hm, hslot, hi, hparent, hbefore⟩
      refine ⟨⟨m, slot, hm, hslot, hi⟩, hparent, ?_⟩
      rcases hbefore with ⟨child, rfl⟩ | hbefore
      · -- A single child is the first in its slot.
        have hfirst : i = 0 := Nat.lt_one_iff.mp hi
        subst hfirst
        exact fun j hj => absurd hj (Nat.not_lt_zero j)
      · exact hbefore
  · exact hordered.imp Position.Earlier.ne

/-- A visitor that stops after each node. -/
def Visitor.stopping : Visitor Node Unit where
  leave _ s := (false, s)

/-- A statement with two expressions and no condition. -/
def Statement.twoLiterals : Statement where
  expressions := [{ literal := "1" }, { literal := "2" }]

/-- The stop after the first expression keeps the second from being entered, but not the
condition. -/
theorem Node.calls_visit_twoLiterals :
    Entered ((Node.stmt .twoLiterals).calls .stopping ()) [(0, 0)] ∧
      ¬ Entered ((Node.stmt .twoLiterals).calls .stopping ()) [(0, 1)] ∧
      Entered ((Node.stmt .twoLiterals).calls .stopping ()) [(3, 0)] := by
  obtain ⟨-, -, -, hiff, -⟩ := Node.calls_visit .stopping (.stmt .twoLiterals) ()
  have htop : Answered ((Node.stmt .twoLiterals).calls .stopping ()) .enter [] true :=
    ⟨.stmt .twoLiterals, List.mem_of_getElem? (i := 0) rfl⟩
  have hstop : ((Node.stmt .twoLiterals).calls .stopping ()).all
      (fun c => c.moment = .enter || !c.answer) = true := rfl
  refine ⟨?_, ?_, ?_⟩
  · exact (hiff [] 0 0).mpr ⟨_, _, rfl, rfl, by decide, htop, .inr nofun⟩
  · intro hentered
    obtain ⟨m, slot, hm, hslot, -, -, hbefore⟩ := (hiff [] 0 1).mp hentered
    cases hm
    cases hslot
    rcases hbefore with ⟨child, hchild⟩ | hbefore
    · cases hchild
    · obtain ⟨a, ha⟩ := hbefore 0 Nat.one_pos
      cases List.all_eq_true.mp hstop _ ha
  · exact (hiff [] 3 0).mpr ⟨_, _, rfl, rfl, by decide, htop, .inl ⟨_, rfl⟩⟩

end Arbor
