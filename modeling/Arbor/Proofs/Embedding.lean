import Arbor.Node.Message
import Arbor.Proofs.Induction

/-!
# Messages of nodes

The message of a node, written with the fields of the node, and the nodes that say
nothing: the unnamed type of kind `other` and the placeholder are the only ones whose
message has nothing but default values.
-/

namespace Arbor

/-! ### Messages of nodes, in terms of the fields -/

/-- The message of an expression, field by field. -/
lemma Expression.toMessage_eq (e : Expression) :
    e.toMessage =
      { kind := Kind.tag e.kind, literal := e.literal, methodName := e.methodName,
        variableName := e.variableName, arguments := e.arguments.map Expression.toMessage,
        declared := e.declared.map Variable.toMessage, isPostfix := e.isPostfix,
        newType := e.newType.toMessage?, operands := e.operands.map Expression.toMessage } := by
  cases e
  simp only [Expression.toMessage, Expression.toMessages_eq_map, Variable.toMessages_eq_map]

/-- The message of a variable, field by field. -/
lemma Variable.toMessage_eq (v : Variable) :
    v.toMessage =
      { name := v.name, declaredType := v.type.toMessage?,
        initializer := v.initializer.toMessage?,
        modifiers := v.modifiers.map Modifier.toMessage } := by
  cases v
  rfl

/-- The message of a statement, field by field. -/
lemma Statement.toMessage_eq (s : Statement) :
    s.toMessage =
      { kind := Kind.tag s.kind, expressions := s.expressions.map Expression.toMessage,
        condition := s.condition.toMessage?,
        statements := s.statements.map Statement.toMessage,
        initializations := s.initializations.map Expression.toMessage,
        updates := s.updates.map Expression.toMessage } := by
  cases s
  simp only [Statement.toMessage, Statement.toMessages_eq_map]

/-- The message of a declaration, field by field. -/
lemma Declaration.toMessage_eq (d : Declaration) :
    d.toMessage =
      { name := d.name, kind := Kind.tag d.kind, modifiers := d.modifiers.map Modifier.toMessage,
        fields := d.fields.map Variable.toMessage, methods := d.methods.map Method.toMessage,
        parents := d.parents.map TypeRef.toMessage,
        nested := d.nested.map Declaration.toMessage } := by
  cases d
  simp only [Declaration.toMessage, Declaration.toMessages_eq_map]

/-! ### Nodes whose messages are all defaults -/

/-- Only the unnamed type of kind `other` has a message without content. -/
lemma TypeRef.toMessage_eq_default_iff {t : TypeRef} : t.toMessage = {} ↔ t = {} := by
  constructor
  · intro h
    obtain ⟨name, kind⟩ := t
    have hname : name = "" := congrArg Message.TypeRef.name h
    have hkind : kind = .other := Kind.tag_injective (congrArg Message.TypeRef.kind h)
    rw [hname, hkind]
  · rintro rfl
    rfl

/-- Only the type without a name is left out. -/
lemma TypeRef.toMessage?_eq_none_iff {t : TypeRef} : t.toMessage? = none ↔ t = {} := by
  unfold toMessage?
  by_cases h : t = {}
  · simp [h]
  · simp [h]

/-- Only the placeholder has a message without content. -/
lemma Expression.toMessage_eq_default_iff {e : Expression} :
    e.toMessage = {} ↔ e = .placeholder := by
  constructor
  · intro h
    obtain ⟨kind, literal, methodName, variableName, arguments, declared, isPostfix, newType,
      operands⟩ := e
    rw [Expression.toMessage_eq, Message.Expression.mk.injEq] at h
    simp only [List.map_eq_nil_iff, TypeRef.toMessage?_eq_none_iff, and_true] at h
    obtain ⟨htag, rfl, rfl, rfl, rfl, rfl, rfl, rfl, rfl⟩ := h
    have hkind : kind = .other := Kind.tag_injective htag
    rw [hkind]
    rfl
  · rintro rfl
    rfl

end Arbor
