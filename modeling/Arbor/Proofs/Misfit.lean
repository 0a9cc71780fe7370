import Arbor.Message.Misfit
import Mathlib.Tactic.Lemma

/-!
# Messages without misfits

The search for a misfit stops at the first one.  That it finds none is a statement about
all fields at once: no stray of the message has the number of a field, and no submessage
has a misfit.  The lemmas `misfit?_eq_none_iff` say so for each of the nine types of
message.
-/

namespace Arbor

/-- Strays are no misfits when none of them has the number of a field. -/
lemma Wire.MessageType.misfit?_eq_none_iff {t : Wire.MessageType} {stray : List Nat} :
    t.misfit? stray = none ↔ ∀ n ∈ stray, t.field? n = none := by
  unfold misfit?
  simp only [List.findSome?_eq_none_iff, Option.map_eq_none_iff]

namespace Message

/-! ### Lists of messages -/

/-- The search through a list of expressions stops at the first misfit of a member. -/
lemma Expression.firstMisfit?_eq_findSome? (ms : List Expression) :
    Expression.firstMisfit? ms = ms.findSome? Expression.misfit? := by
  induction ms with
  | nil => rfl
  | cons m ms ih =>
    rw [Expression.firstMisfit?, ih, List.findSome?_cons]
    cases m.misfit? <;> rfl

/-- The search through a list of variables stops at the first misfit of a member. -/
lemma Variable.firstMisfit?_eq_findSome? (ms : List Variable) :
    Variable.firstMisfit? ms = ms.findSome? Variable.misfit? := by
  induction ms with
  | nil => rfl
  | cons m ms ih =>
    rw [Variable.firstMisfit?, ih, List.findSome?_cons]
    cases m.misfit? <;> rfl

/-- The search through a list of statements stops at the first misfit of a member. -/
lemma Statement.firstMisfit?_eq_findSome? (ms : List Statement) :
    Statement.firstMisfit? ms = ms.findSome? Statement.misfit? := by
  induction ms with
  | nil => rfl
  | cons m ms ih =>
    rw [Statement.firstMisfit?, ih, List.findSome?_cons]
    cases m.misfit? <;> rfl

/-- The search through a list of declarations stops at the first misfit of a member. -/
lemma Declaration.firstMisfit?_eq_findSome? (ms : List Declaration) :
    Declaration.firstMisfit? ms = ms.findSome? Declaration.misfit? := by
  induction ms with
  | nil => rfl
  | cons m ms ih =>
    rw [Declaration.firstMisfit?, ih, List.findSome?_cons]
    cases m.misfit? <;> rfl

/-! ### The nine types -/

/-- A type without misfits has no stray with the number of a field. -/
lemma TypeRef.misfit?_eq_none_iff {m : TypeRef} :
    m.misfit? = none ↔ ∀ n ∈ m.stray, Wire.MessageType.typeRef.field? n = none :=
  Wire.MessageType.misfit?_eq_none_iff

/-- A modifier without misfits has no stray with the number of a field. -/
lemma Modifier.misfit?_eq_none_iff {m : Modifier} :
    m.misfit? = none ↔ ∀ n ∈ m.stray, Wire.MessageType.mod.field? n = none :=
  Wire.MessageType.misfit?_eq_none_iff

/-- An expression without misfits has none of its own and none in what it contains. -/
lemma Expression.misfit?_eq_none_iff {m : Expression} :
    m.misfit? = none ↔
      (∀ n ∈ m.stray, Wire.MessageType.expr.field? n = none) ∧
      (∀ a ∈ m.arguments, a.misfit? = none) ∧ (∀ v ∈ m.declared, v.misfit? = none) ∧
      (∀ t ∈ m.newType, t.misfit? = none) ∧ ∀ o ∈ m.operands, o.misfit? = none := by
  cases m
  simp only [Expression.misfit?, Expression.firstMisfit?_eq_findSome?,
    Variable.firstMisfit?_eq_findSome?, Option.or_eq_none_iff, List.findSome?_eq_none_iff,
    Option.bind_eq_none_iff, Wire.MessageType.misfit?_eq_none_iff, Option.mem_def]

/-- A variable without misfits has none of its own and none in what it contains. -/
lemma Variable.misfit?_eq_none_iff {m : Variable} :
    m.misfit? = none ↔
      (∀ n ∈ m.stray, Wire.MessageType.var.field? n = none) ∧
      (∀ t ∈ m.declaredType, t.misfit? = none) ∧ (∀ e ∈ m.initializer, e.misfit? = none) ∧
      ∀ n ∈ m.modifiers, n.misfit? = none := by
  obtain ⟨name, declaredType, initializer, modifiers, stray⟩ := m
  cases initializer <;>
    simp [Variable.misfit?, Wire.MessageType.misfit?_eq_none_iff, Option.bind_eq_none_iff]

/-- A statement without misfits has none of its own and none in what it contains. -/
lemma Statement.misfit?_eq_none_iff {m : Statement} :
    m.misfit? = none ↔
      (∀ n ∈ m.stray, Wire.MessageType.stmt.field? n = none) ∧
      (∀ e ∈ m.expressions, e.misfit? = none) ∧ (∀ e ∈ m.condition, e.misfit? = none) ∧
      (∀ s ∈ m.statements, s.misfit? = none) ∧ (∀ e ∈ m.initializations, e.misfit? = none) ∧
      ∀ e ∈ m.updates, e.misfit? = none := by
  cases m
  simp only [Statement.misfit?, Statement.firstMisfit?_eq_findSome?, Option.or_eq_none_iff,
    List.findSome?_eq_none_iff, Option.bind_eq_none_iff, Wire.MessageType.misfit?_eq_none_iff,
    Option.mem_def]

/-- A method without misfits has none of its own and none in what it contains. -/
lemma Method.misfit?_eq_none_iff {m : Method} :
    m.misfit? = none ↔
      (∀ n ∈ m.stray, Wire.MessageType.method.field? n = none) ∧
      (∀ t ∈ m.returnType, t.misfit? = none) ∧ (∀ n ∈ m.modifiers, n.misfit? = none) ∧
      (∀ v ∈ m.arguments, v.misfit? = none) ∧ (∀ s ∈ m.statements, s.misfit? = none) ∧
      ∀ e ∈ m.content, e.misfit? = none := by
  simp only [Method.misfit?, Option.or_eq_none_iff, List.findSome?_eq_none_iff,
    Option.bind_eq_none_iff, Wire.MessageType.misfit?_eq_none_iff, Option.mem_def]

/-- A declaration without misfits has none of its own and none in what it contains. -/
lemma Declaration.misfit?_eq_none_iff {m : Declaration} :
    m.misfit? = none ↔
      (∀ n ∈ m.stray, Wire.MessageType.decl.field? n = none) ∧
      (∀ n ∈ m.modifiers, n.misfit? = none) ∧ (∀ v ∈ m.fields, v.misfit? = none) ∧
      (∀ n ∈ m.methods, n.misfit? = none) ∧ (∀ t ∈ m.parents, t.misfit? = none) ∧
      ∀ d ∈ m.nested, d.misfit? = none := by
  cases m
  simp only [Declaration.misfit?, Declaration.firstMisfit?_eq_findSome?, Option.or_eq_none_iff,
    List.findSome?_eq_none_iff, Wire.MessageType.misfit?_eq_none_iff]

/-- A namespace without misfits has none of its own and none in what it contains. -/
lemma Namespace.misfit?_eq_none_iff {m : Namespace} :
    m.misfit? = none ↔
      (∀ n ∈ m.stray, Wire.MessageType.ns.field? n = none) ∧
      (∀ n ∈ m.modifiers, n.misfit? = none) ∧ ∀ d ∈ m.declarations, d.misfit? = none := by
  simp only [Namespace.misfit?, Option.or_eq_none_iff, List.findSome?_eq_none_iff,
    Wire.MessageType.misfit?_eq_none_iff]

/-- A root without misfits has none of its own and none in its namespaces. -/
lemma Root.misfit?_eq_none_iff {m : Root} :
    m.misfit? = none ↔
      (∀ n ∈ m.stray, Wire.MessageType.root.field? n = none) ∧
      ∀ n ∈ m.namespaces, n.misfit? = none := by
  simp only [Root.misfit?, Option.or_eq_none_iff, List.findSome?_eq_none_iff,
    Wire.MessageType.misfit?_eq_none_iff]

end Message

end Arbor
