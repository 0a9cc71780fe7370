import Arbor.Message
import Arbor.Node
import Mathlib.Tactic.Lemma

/-!
# Induction over nested messages and nodes

Expressions and variables contain each other, statements contain statements and
declarations contain declarations, always through lists.  The principles below hand out
the induction hypothesis for every member of such a list, so that a proof about a
message or a node follows its fields and never takes a list apart.

`Message.nested_induction` and `nested_induction` treat expressions and variables at
once; `Message.Statement.nested_induction` and its three companions treat the types that
nest in themselves only.
-/

namespace Arbor

/-! ### Messages -/

namespace Message

/-- Two properties hold of all expressions and of all variables if each message inherits
its property from the expressions and variables directly below it. -/
theorem nested_induction {P : Expression → Prop} {Q : Variable → Prop}
    (hexpr : ∀ m : Expression, (∀ a ∈ m.arguments, P a) → (∀ v ∈ m.declared, Q v) →
      (∀ o ∈ m.operands, P o) → P m)
    (hvar : ∀ m : Variable, (∀ e ∈ m.initializer, P e) → Q m) :
    (∀ m, P m) ∧ ∀ m, Q m := by
  have hP : ∀ m, P m :=
    @Expression.rec P Q (fun ms => ∀ m ∈ ms, P m) (fun ms => ∀ m ∈ ms, Q m)
      (fun o => ∀ e ∈ o, P e)
      (fun _ _ _ _ _ _ _ _ _ _ ha hv ho => hexpr _ ha hv ho)
      (fun _ _ _ _ _ hi => hvar _ hi)
      (fun _ h => nomatch h) (fun _ _ h hs => List.forall_mem_cons.mpr ⟨h, hs⟩)
      (fun _ h => nomatch h) (fun _ _ h hs => List.forall_mem_cons.mpr ⟨h, hs⟩)
      (fun _ h => nomatch h) (fun _ h _ he => Option.some.inj he ▸ h)
  exact ⟨hP, fun m => hvar m fun e _ => hP e⟩

/-- A property holds of all statements if each inherits it from the statements directly
nested in it. -/
theorem Statement.nested_induction {P : Statement → Prop}
    (hstmt : ∀ m : Statement, (∀ s ∈ m.statements, P s) → P m) (m : Statement) : P m :=
  @Statement.rec P (fun ms => ∀ m ∈ ms, P m) (fun _ _ _ _ _ _ _ h => hstmt _ h)
    (fun _ h => nomatch h) (fun _ _ h hs => List.forall_mem_cons.mpr ⟨h, hs⟩) m

/-- A property holds of all declarations if each inherits it from the declarations
directly nested in it. -/
theorem Declaration.nested_induction {P : Declaration → Prop}
    (hdecl : ∀ m : Declaration, (∀ d ∈ m.nested, P d) → P m) (m : Declaration) : P m :=
  @Declaration.rec P (fun ms => ∀ m ∈ ms, P m) (fun _ _ _ _ _ _ _ _ h => hdecl _ h)
    (fun _ h => nomatch h) (fun _ _ h hs => List.forall_mem_cons.mpr ⟨h, hs⟩) m

end Message

/-! ### Nodes -/

/-- Two properties hold of all expressions and of all variables if each node inherits its
property from the expressions and variables directly below it. -/
theorem nested_induction {P : Expression → Prop} {Q : Variable → Prop}
    (hexpr : ∀ e : Expression, (∀ a ∈ e.arguments, P a) → (∀ v ∈ e.declared, Q v) →
      (∀ o ∈ e.operands, P o) → P e)
    (hvar : ∀ v : Variable, P v.initializer → Q v) :
    (∀ e, P e) ∧ ∀ v, Q v := by
  have hP : ∀ e, P e :=
    @Expression.rec P Q (fun es => ∀ e ∈ es, P e) (fun vs => ∀ v ∈ vs, Q v)
      (fun _ _ _ _ _ _ _ _ _ ha hv ho => hexpr _ ha hv ho)
      (fun _ _ _ _ hi => hvar _ hi)
      (fun _ h => nomatch h) (fun _ _ h hs => List.forall_mem_cons.mpr ⟨h, hs⟩)
      (fun _ h => nomatch h) (fun _ _ h hs => List.forall_mem_cons.mpr ⟨h, hs⟩)
  exact ⟨hP, fun v => hvar v (hP v.initializer)⟩

/-- A property holds of all statements if each inherits it from the statements directly
nested in it. -/
theorem Statement.nested_induction {P : Statement → Prop}
    (hstmt : ∀ s : Statement, (∀ s' ∈ s.statements, P s') → P s) (s : Statement) : P s :=
  @Statement.rec P (fun ss => ∀ s ∈ ss, P s) (fun _ _ _ _ _ _ h => hstmt _ h)
    (fun _ h => nomatch h) (fun _ _ h hs => List.forall_mem_cons.mpr ⟨h, hs⟩) s

/-- A property holds of all declarations if each inherits it from the declarations
directly nested in it. -/
theorem Declaration.nested_induction {P : Declaration → Prop}
    (hdecl : ∀ d : Declaration, (∀ d' ∈ d.nested, P d') → P d) (d : Declaration) : P d :=
  @Declaration.rec P (fun ds => ∀ d ∈ ds, P d) (fun _ _ _ _ _ _ _ h => hdecl _ h)
    (fun _ h => nomatch h) (fun _ _ h hs => List.forall_mem_cons.mpr ⟨h, hs⟩) d

end Arbor
