import Arbor.Proofs.Walk.Nesting
import Arbor.Proofs.Walk.Visits
import Arbor.Trace

/-!
# Stricter visitors are asked less

A visitor that keeps to rules refuses to go below some nodes and stops after some nodes, and can
tell which ones by looking at the node, whatever happened before (`Visitor.KeepsTo`).  If one
visitor refuses and stops wherever another one does, then it is asked some of the questions that the
other one is asked, in the same order, and no other questions.

The two walks are compared part by part (`Tree.Block.questions_sublist`).  Where the laxer visitor
refuses or stops, so does the stricter one, and both go on with the same part of the tree.  Where
only the stricter one does, it leaves out calls of the other.
-/

namespace Arbor

variable {α β σ σ' : Type}

/-- The answer to a question by rule: no below the nodes that are refused, and no after the nodes at
which the walk of a list is to stop. -/
def answerBy (refuse stop : α → Bool) : Moment → α → Bool
  | .enter, a => !refuse a
  | .leave, a => !stop a

/-- The visitor answers by rule, in every state. -/
def Visitor.KeepsTo (v : Visitor α σ) (refuse stop : α → Bool) : Prop :=
  ∀ moment a s, (v.ask moment a s).1 = answerBy refuse stop moment a

/-- All calls were answered by rule. -/
def Ruled (refuse stop : α → Bool) (l : List (Call α)) : Prop :=
  ∀ c ∈ l, c.answer = answerBy refuse stop c.moment c.node

/-- What was asked in each call: at which moment, and about which node. -/
def questions (l : List (Call α)) : List (Moment × α) :=
  l.map fun c => (c.moment, c.node)

/-- The questions of two runs are put together. -/
lemma questions_append (l l' : List (Call α)) :
    questions (l ++ l') = questions l ++ questions l' :=
  List.map_append

/-- Questions do not name positions. -/
lemma questions_lift (p : Position) (l : List (Call α)) :
    questions (l.map (Call.lift p)) = questions l := by
  rw [questions, List.map_map]
  rfl

/-- A node that is walked is asked about first and last. -/
lemma questions_walked (a : α) (answer : Bool) (l : List (Call α)) :
    questions (⟨.enter, [], a, true⟩ :: (l ++ [⟨.leave, [], a, answer⟩])) =
      (.enter, a) :: (questions l ++ [(.leave, a)]) := by
  rw [questions, List.map_cons, List.map_append, questions]
  rfl

section Ruled

variable {refuse stop : α → Bool} {l l' : List (Call α)}

/-- Fewer calls follow the rules that all of them follow. -/
lemma Ruled.mono (h : Ruled refuse stop l') (hl : l ⊆ l') : Ruled refuse stop l :=
  fun c hc => h c (hl hc)

/-- Calls follow the same rules as seen from the child. -/
lemma Ruled.of_lift {p : Position} (h : Ruled refuse stop (l.map (Call.lift p))) :
    Ruled refuse stop l :=
  fun c hc => h (c.lift p) (List.mem_map_of_mem hc)

/-- If two runs in a row follow the rules, both of them do. -/
lemma Ruled.of_append (h : Ruled refuse stop (l ++ l')) :
    Ruled refuse stop l ∧ Ruled refuse stop l' :=
  ⟨h.mono (List.subset_append_left _ _), h.mono (List.subset_append_right _ _)⟩

/-- If the walk of a node follows the rules, so do the calls below it. -/
lemma Ruled.of_walked {a : α} {answer : Bool}
    (h : Ruled refuse stop (⟨.enter, [], a, true⟩ :: (l ++ [⟨.leave, [], a, answer⟩]))) :
    Ruled refuse stop l :=
  h.mono (List.subset_cons_of_subset _ (List.subset_append_left _ _))

/-- A node that is entered with yes is not refused, and one that is entered with no is. -/
lemma Ruled.refuse_eq {a : α} {descend : Bool} {p : Position}
    (h : Ruled refuse stop (⟨.enter, p, a, descend⟩ :: l)) : refuse a = !descend := by
  have hanswer : descend = !refuse a := h _ List.mem_cons_self
  rw [hanswer, Bool.not_not]

/-- A visitor that keeps to rules answers all its calls by rule. -/
lemma Visitor.Runs.ruled {v : Visitor α σ} {s s' : σ} (h : v.Runs s l s')
    (hv : v.KeepsTo refuse stop) : Ruled refuse stop l := by
  intro c hc
  obtain ⟨s₁, s₂, hask⟩ := h.exists_ask hc
  have hanswer := hv c.moment c.node s₁
  rwa [hask] at hanswer

end Ruled

namespace Tree

variable {refuse stop refuse' stop' : α → Bool}

/-- A walk ends with the answer that the rules give for the topmost node. -/
lemma Block.answer_eq {t : Tree α} {answer : Bool} {l : List (Call α)} (h : t.Block answer l)
    (hl : Ruled refuse stop l) : answer = !stop t.label := by
  obtain ⟨a, hleave⟩ := h.answered_leave_nil_iff.mpr rfl
  have hlabel : t.label = a := (h.of_mem_nil hleave).1
  rw [hlabel]
  exact hl _ hleave

/-- A tree after which the laxer visitor stops is one after which the stricter visitor stops. -/
lemma Block.not_lax_of_strict {t : Tree α} {l l' : List (Call α)}
    (hstop : ∀ a, stop a = true → stop' a = true) (h : t.Block false l) (h' : t.Block true l')
    (hl : Ruled refuse stop l) (hl' : Ruled refuse' stop' l') : False := by
  have hlax : stop t.label = true := by simpa using h.answer_eq hl
  have hstrict : stop' t.label = false := by simpa using h'.answer_eq hl'
  rw [hstop _ hlax] at hstrict
  cases hstrict

-- The induction is on the walk of the laxer visitor; the other walk is of the same tree.
mutual

/-- In a walk of the same tree, a stricter visitor is asked some of the questions, in order. -/
theorem Block.questions_sublist (hrefuse : ∀ a, refuse a = true → refuse' a = true)
    (hstop : ∀ a, stop a = true → stop' a = true) {t : Tree α} {answer answer' : Bool}
    {l l' : List (Call α)} : t.Block answer l → t.Block answer' l' → Ruled refuse stop l →
      Ruled refuse' stop' l' → (questions l').Sublist (questions l)
  | .refused, .refused, _, _ => .refl _
  | @Block.refused _ a _ _, .walked _, hl, hl' => by
    have hlax : refuse a = true := hl.refuse_eq
    have hstrict : refuse' a = false := hl'.refuse_eq
    rw [hrefuse a hlax] at hstrict
    cases hstrict
  | @Block.walked _ a _ _ l _, .refused, _, _ => by
    rw [questions_walked]
    exact .cons_cons _ (List.sublist_append_right (questions l) [(.leave, a)])
  | .walked h, .walked h', hl, hl' => by
    have hinside := Blocks.questions_sublist hrefuse hstop h h' hl.of_walked hl'.of_walked
    rw [questions_walked, questions_walked]
    exact .cons_cons _ (hinside.append (.refl _))

/-- A stricter visitor asks some of the questions in the slots of a node, in the same order. -/
theorem Blocks.questions_sublist (hrefuse : ∀ a, refuse a = true → refuse' a = true)
    (hstop : ∀ a, stop a = true → stop' a = true) {g : Nat} {gs : List (List (Tree α))}
    {l l' : List (Call α)} : Blocks g gs l → Blocks g gs l' → Ruled refuse stop l →
      Ruled refuse' stop' l' → (questions l').Sublist (questions l)
  | .nil, .nil, _, _ => .refl _
  | .cons hrow hblocks, .cons hrow' hblocks', hl, hl' => by
    obtain ⟨hfirst, hrest⟩ := hl.of_append
    obtain ⟨hfirst', hrest'⟩ := hl'.of_append
    have hsub := Row.questions_sublist hrefuse hstop hrow hrow' hfirst hfirst'
    have hsubs := Blocks.questions_sublist hrefuse hstop hblocks hblocks' hrest hrest'
    rw [questions_append, questions_append]
    exact hsub.append hsubs

/-- A stricter visitor asks some of the questions in a row of trees, in the same order. -/
theorem Row.questions_sublist (hrefuse : ∀ a, refuse a = true → refuse' a = true)
    (hstop : ∀ a, stop a = true → stop' a = true) {g i : Nat} {ts : List (Tree α)}
    {l l' : List (Call α)} : Row g i ts l → Row g i ts l' → Ruled refuse stop l →
      Ruled refuse' stop' l' → (questions l').Sublist (questions l)
  | .nil, .nil, _, _ => .refl _
  | .last h, .last h', hl, hl' => by
    rw [questions_lift, questions_lift]
    exact Block.questions_sublist hrefuse hstop h h' hl.of_lift hl'.of_lift
  | .last h, .next h' _, hl, hl' =>
    (Block.not_lax_of_strict hstop h h' hl.of_lift hl'.of_append.1.of_lift).elim
  | .next h _, .last h', hl, hl' => by
    have hfirst := Block.questions_sublist hrefuse hstop h h' hl.of_append.1.of_lift hl'.of_lift
    rw [questions_append, questions_lift, questions_lift]
    exact hfirst.trans (List.sublist_append_left _ _)
  | .next h hrow, .next h' hrow', hl, hl' => by
    have hfirst := Block.questions_sublist hrefuse hstop h h' hl.of_append.1.of_lift
      hl'.of_append.1.of_lift
    have hrest := Row.questions_sublist hrefuse hstop hrow hrow' hl.of_append.2 hl'.of_append.2
    rw [questions_append, questions_append, questions_lift, questions_lift]
    exact hfirst.append hrest

end

end Tree

/-! ## Events -/

namespace Node

/-- The events of a walk, in order: each question, with the label of the node it is about. -/
def events (label : Node → β) (v : Visitor Node σ) (n : Node) (s : σ) : List (Moment × β) :=
  (questions (n.calls v s)).map (Prod.map id label)

/-- The events of a walk begin with the enter of the node and end with its leave. -/
lemma events_ends (label : Node → β) (v : Visitor Node σ) (n : Node) (s : σ) :
    ∃ inside, n.events label v s = (.enter, label n) :: (inside ++ [(.leave, label n)]) := by
  obtain ⟨descend, inside, hends⟩ := (Tree.block_calls v n.tree s).exists_ends
  have hcalls : n.calls v s =
      ⟨.enter, [], n, descend⟩ :: (inside ++ [⟨.leave, [], n, (n.walk v s).1⟩]) := by
    rwa [Node.label_tree] at hends
  refine ⟨(questions inside).map (Prod.map id label), ?_⟩
  simp [events, hcalls, questions]

/-- A visitor that keeps to stricter rules, by labels, meets some of the events, in order. -/
lemma events_sublist_of_keepsTo {label : Node → β} {refuse stop refuse' stop' : β → Bool}
    (hrefuse : ∀ a, refuse a = true → refuse' a = true)
    (hstop : ∀ a, stop a = true → stop' a = true) {v : Visitor Node σ} {v' : Visitor Node σ'}
    (hv : v.KeepsTo (refuse ∘ label) (stop ∘ label))
    (hv' : v'.KeepsTo (refuse' ∘ label) (stop' ∘ label)) (n : Node) (s : σ) (s' : σ') :
    (n.events label v' s').Sublist (n.events label v s) := by
  have hruled := (Tree.runs_calls v n.tree s).ruled hv
  have hruled' := (Tree.runs_calls v' n.tree s').ruled hv'
  have hquestions := Tree.Block.questions_sublist (fun m => hrefuse (label m))
    (fun m => hstop (label m)) (Tree.block_calls v n.tree s) (Tree.block_calls v' n.tree s')
    hruled hruled'
  exact hquestions.map _

end Node

/-! ### Traces -/

/-- The event of a trace that is written down at the given moment. -/
def Event.at : Moment → String → Event
  | .enter => .enter
  | .leave => .leave

/-- A recording visitor writes down each question. -/
lemma Trace.Rules.toList_of_runs {r : Trace.Rules} {t t' : Array Event} {l : List (Call Node)}
    (h : r.recorder.Runs t l t') :
    t'.toList = t.toList ++ (questions l).map fun q => Event.at q.1 q.2.label := by
  induction h with
  | nil => simp [questions]
  | @cons t t₁ t' c l hask _ ih =>
    have hpush : t₁ = t.push (Event.at c.moment c.node.label) := by
      have hstate : (r.recorder.ask c.moment c.node t).2 = t₁ := congrArg Prod.snd hask
      rw [← hstate]
      cases c.moment <;> rfl
    rw [ih, hpush]
    simp [questions]

/-- A trace lists the events of the walk of its recording visitor. -/
lemma Node.snd_trace (r : Trace.Rules) (n : Node) :
    (n.trace r).2 = (n.events Node.label r.recorder #[]).map fun e => Event.at e.1 e.2 := by
  have hevents := Trace.Rules.toList_of_runs (Tree.runs_calls r.recorder n.tree #[])
  rw [Node.events, List.map_map]
  exact hevents

/-- Without rules for places of the trace, a recording visitor answers by labels. -/
lemma Trace.Rules.keepsTo (refuse stop : List Trace.Pattern) :
    ({ refuse, stop } : Trace.Rules).recorder.KeepsTo
      ((fun label => refuse.any (·.covers label)) ∘ Node.label)
      ((fun label => stop.any (·.covers label)) ∘ Node.label) := by
  intro moment n t
  cases moment with
  | enter => simp [Visitor.ask, recorder, answerBy]
  | leave => simp [Visitor.ask, recorder, answerBy]

/-- Refusing or stopping more only removes events.  Let two visitors answer by rules about labels,
in whatever way nodes are labelled and whatever the visitors do with their states.  Let the second
refuse and stop wherever the first does.  Then the events of its walk are some of the events of the
first walk, in the same order.  Both walks begin with the enter of the node and end with its leave,
and their events are among those of the walk that goes everywhere. -/
theorem Node.stricter_events_sublist (label : Node → β) {refuse stop refuse' stop' : β → Bool}
    (hrefuse : ∀ a, refuse a = true → refuse' a = true)
    (hstop : ∀ a, stop a = true → stop' a = true) {v : Visitor Node σ} {v' : Visitor Node σ'}
    (hv : v.KeepsTo (refuse ∘ label) (stop ∘ label))
    (hv' : v'.KeepsTo (refuse' ∘ label) (stop' ∘ label)) (n : Node) (s : σ) (s' : σ') :
    v.Runs s (n.calls v s) (n.walk v s).2 ∧ v'.Runs s' (n.calls v' s') (n.walk v' s').2 ∧
      (n.events label v' s').Sublist (n.events label v s) ∧
      (∃ inside, n.events label v s = (.enter, label n) :: (inside ++ [(.leave, label n)])) ∧
      (∃ inside, n.events label v' s' = (.enter, label n) :: (inside ++ [(.leave, label n)])) ∧
      (n.events label v s).Sublist (n.events label ({} : Visitor Node Unit) ()) ∧
      (n.events label v' s').Sublist (n.events label ({} : Visitor Node Unit) ()) := by
  have hfull : ({} : Visitor Node Unit).KeepsTo ((fun _ => false) ∘ label)
      ((fun _ => false) ∘ label) := by
    intro moment a _
    cases moment <;> rfl
  have hsub := events_sublist_of_keepsTo hrefuse hstop hv hv' n s s'
  have hall := events_sublist_of_keepsTo nofun nofun hfull hv n () s
  exact ⟨Tree.runs_calls v n.tree s, Tree.runs_calls v' n.tree s', hsub, n.events_ends label v s,
    n.events_ends label v' s', hall, hsub.trans hall⟩

/-- In a statement with two expressions, a visitor that stops after expressions misses the second
one, with its type, and meets everything else in the order of the full walk. -/
theorem Node.stricter_events_sublist_twoLiterals :
    ((Node.stmt .twoLiterals).trace { stop := [.startingWith "expr:"] }).2.Sublist
        ((Node.stmt .twoLiterals).trace {}).2 ∧
      ((Node.stmt .twoLiterals).trace { stop := [.startingWith "expr:"] }).2.length = 10 ∧
      ((Node.stmt .twoLiterals).trace {}).2.length = 14 := by
  obtain ⟨-, -, hsub, -⟩ := Node.stricter_events_sublist Node.label (by simp) (by simp)
    (Trace.Rules.keepsTo [] []) (Trace.Rules.keepsTo [] [.startingWith "expr:"])
    (.stmt .twoLiterals) #[] #[]
  refine ⟨?_, by decide, by decide⟩
  rw [Node.snd_trace, Node.snd_trace]
  exact hsub.map _

end Arbor
