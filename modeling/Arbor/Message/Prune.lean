import Arbor.Kind
import Arbor.Limits
import Arbor.Message

/-!
# Pruning messages

A message is pruned to the part that a conversion looks at: what the limits cut off is
emptied, expressions other than method calls lose their arguments, and the numbers of
strays that belong to no field are forgotten.
-/

namespace Arbor

/-- The numbers that belong to a field. -/
def Wire.MessageType.known (t : Wire.MessageType) (stray : List Nat) : List Nat :=
  stray.filter fun n => (t.field? n).isSome

namespace Message

/-- Forget strays. -/
def TypeRef.prune (m : TypeRef) : TypeRef :=
  { m with stray := Wire.MessageType.typeRef.known m.stray }

/-- Forget strays. -/
def Modifier.prune (m : Modifier) : Modifier :=
  { m with stray := Wire.MessageType.mod.known m.stray }

mutual

/-- Prune an expression; only method calls keep their arguments. -/
def Expression.prune : Expression → Expression
  | ⟨kind, literal, methodName, variableName, arguments, declared, isPostfix, newType, operands,
      stray⟩ =>
    { kind, literal, methodName, variableName,
      arguments :=
        if kind = ExpressionKind.methodCall.tag then Expression.pruneAll arguments else [],
      declared := Variable.pruneAll declared, isPostfix,
      newType := newType.map TypeRef.prune, operands := Expression.pruneAll operands,
      stray := Wire.MessageType.expr.known stray }

/-- Prune expressions. -/
def Expression.pruneAll : List Expression → List Expression
  | [] => []
  | m :: ms => m.prune :: Expression.pruneAll ms

/-- Prune a variable. -/
def Variable.prune : Variable → Variable
  | ⟨name, declaredType, initializer, modifiers, stray⟩ =>
    { name, declaredType := declaredType.map TypeRef.prune,
      initializer :=
        match initializer with
        | none => none
        | some m => some m.prune,
      modifiers := modifiers.map Modifier.prune, stray := Wire.MessageType.var.known stray }

/-- Prune variables. -/
def Variable.pruneAll : List Variable → List Variable
  | [] => []
  | m :: ms => m.prune :: Variable.pruneAll ms

end

mutual

/-- Prune a statement at the given depth. -/
def Statement.prune (limits : Limits) (depth : Nat) : Statement → Statement
  | ⟨kind, expressions, condition, statements, initializations, updates, stray⟩ =>
    { kind, expressions := expressions.map Expression.prune,
      condition := condition.map Expression.prune,
      statements :=
        if Limits.allows limits.statements depth then
          Statement.pruneAll limits (depth + 1) statements
        else [],
      initializations := initializations.map Expression.prune,
      updates := updates.map Expression.prune, stray := Wire.MessageType.stmt.known stray }

/-- Prune statements at the given depth. -/
def Statement.pruneAll (limits : Limits) (depth : Nat) : List Statement → List Statement
  | [] => []
  | m :: ms => m.prune limits depth :: Statement.pruneAll limits depth ms

end

/-- Prune a method. -/
def Method.prune (limits : Limits) (m : Method) : Method where
  name := m.name
  returnType := m.returnType.map TypeRef.prune
  modifiers := m.modifiers.map Modifier.prune
  arguments := m.arguments.map Variable.prune
  statements := m.statements.map (Statement.prune limits 0)
  content := m.content.map Expression.prune
  stray := Wire.MessageType.method.known m.stray

mutual

/-- Prune a declaration at the given depth. -/
def Declaration.prune (limits : Limits) (depth : Nat) : Declaration → Declaration
  | ⟨name, kind, modifiers, fields, methods, parents, nested, stray⟩ =>
    { name, kind, modifiers := modifiers.map Modifier.prune,
      fields := fields.map Variable.prune, methods := methods.map (Method.prune limits),
      parents := parents.map TypeRef.prune,
      nested :=
        if Limits.allows limits.declarations depth then
          Declaration.pruneAll limits (depth + 1) nested
        else [],
      stray := Wire.MessageType.decl.known stray }

/-- Prune declarations at the given depth. -/
def Declaration.pruneAll (limits : Limits) (depth : Nat) : List Declaration → List Declaration
  | [] => []
  | m :: ms => m.prune limits depth :: Declaration.pruneAll limits depth ms

end

/-- Prune a namespace. -/
def Namespace.prune (limits : Limits) (m : Namespace) : Namespace where
  name := m.name
  modifiers := m.modifiers.map Modifier.prune
  declarations := m.declarations.map (Declaration.prune limits 0)
  stray := Wire.MessageType.ns.known m.stray

/-- Prune a source file. -/
def Root.prune (limits : Limits) (m : Root) : Root where
  imports := m.imports
  namespaces := m.namespaces.map (Namespace.prune limits)
  stray := Wire.MessageType.root.known m.stray

/-! ### Lists of messages -/

/-- A list of expressions is pruned member by member. -/
@[simp] theorem Expression.pruneAll_eq_map (ms : List Expression) :
    Expression.pruneAll ms = ms.map Expression.prune := by
  induction ms with
  | nil => rfl
  | cons m ms ih => rw [Expression.pruneAll, ih, List.map_cons]

/-- A list of variables is pruned member by member. -/
@[simp] theorem Variable.pruneAll_eq_map (ms : List Variable) :
    Variable.pruneAll ms = ms.map Variable.prune := by
  induction ms with
  | nil => rfl
  | cons m ms ih => rw [Variable.pruneAll, ih, List.map_cons]

/-- A list of statements is pruned member by member, all at one depth. -/
@[simp] theorem Statement.pruneAll_eq_map (limits : Limits) (depth : Nat) (ms : List Statement) :
    Statement.pruneAll limits depth ms = ms.map (Statement.prune limits depth) := by
  induction ms with
  | nil => rfl
  | cons m ms ih => rw [Statement.pruneAll, ih, List.map_cons]

/-- A list of declarations is pruned member by member, all at one depth. -/
@[simp] theorem Declaration.pruneAll_eq_map (limits : Limits) (depth : Nat)
    (ms : List Declaration) :
    Declaration.pruneAll limits depth ms = ms.map (Declaration.prune limits depth) := by
  induction ms with
  | nil => rfl
  | cons m ms ih => rw [Declaration.pruneAll, ih, List.map_cons]

end Message

end Arbor
