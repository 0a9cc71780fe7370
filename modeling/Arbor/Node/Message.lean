import Arbor.Message.Records
import Arbor.Node

/-!
# Nodes as messages

The message of a node has the tags of its kinds.  A placeholder expression and an unnamed
type of kind `other` are left out where the message may do without them, that is where
they are single children.

## Main declarations

* `Root.toMessage`: the message of a source file.
* `Root.toBytes`: its canonical serialized form.
-/

namespace Arbor

/-- The message of a type. -/
def TypeRef.toMessage (t : TypeRef) : Message.TypeRef where
  name := t.name
  kind := Kind.tag t.kind

/-- The message of a type, unless it has no name and is of kind `other`. -/
def TypeRef.toMessage? (t : TypeRef) : Option Message.TypeRef :=
  if t = {} then none else some t.toMessage

/-- The message of a modifier. -/
def Modifier.toMessage (m : Modifier) : Message.Modifier where
  name := m.name
  kind := Kind.tag m.kind
  membersAndValues := m.membersAndValues
  visibility := Kind.tag m.visibility
  other := m.other

mutual

/-- The message of an expression. -/
def Expression.toMessage : Expression → Message.Expression
  | ⟨kind, literal, methodName, variableName, arguments, declared, isPostfix, newType,
      operands⟩ =>
    { kind := Kind.tag kind, literal, methodName, variableName,
      arguments := Expression.toMessages arguments, declared := Variable.toMessages declared,
      isPostfix, newType := newType.toMessage?, operands := Expression.toMessages operands }

/-- The messages of expressions. -/
def Expression.toMessages : List Expression → List Message.Expression
  | [] => []
  | e :: es => e.toMessage :: Expression.toMessages es

/-- The message of a variable. -/
def Variable.toMessage : Variable → Message.Variable
  | ⟨name, type, initializer, modifiers⟩ =>
    { name, declaredType := type.toMessage?,
      initializer := if initializer.isPlaceholder then none else some initializer.toMessage,
      modifiers := modifiers.map Modifier.toMessage }

/-- The messages of variables. -/
def Variable.toMessages : List Variable → List Message.Variable
  | [] => []
  | v :: vs => v.toMessage :: Variable.toMessages vs

end

/-- The message of an expression, unless it is the placeholder. -/
def Expression.toMessage? (e : Expression) : Option Message.Expression :=
  if e.isPlaceholder then none else some e.toMessage

mutual

/-- The message of a statement. -/
def Statement.toMessage : Statement → Message.Statement
  | ⟨kind, expressions, condition, statements, initializations, updates⟩ =>
    { kind := Kind.tag kind, expressions := expressions.map Expression.toMessage,
      condition := condition.toMessage?, statements := Statement.toMessages statements,
      initializations := initializations.map Expression.toMessage,
      updates := updates.map Expression.toMessage }

/-- The messages of statements. -/
def Statement.toMessages : List Statement → List Message.Statement
  | [] => []
  | s :: ss => s.toMessage :: Statement.toMessages ss

end

/-- The message of a method. -/
def Method.toMessage (m : Method) : Message.Method where
  name := m.name
  returnType := m.returnType.toMessage?
  modifiers := m.modifiers.map Modifier.toMessage
  arguments := m.arguments.map Variable.toMessage
  statements := m.statements.map Statement.toMessage
  content := m.content.map Expression.toMessage

mutual

/-- The message of a declaration. -/
def Declaration.toMessage : Declaration → Message.Declaration
  | ⟨name, kind, modifiers, fields, methods, parents, nested⟩ =>
    { name, kind := Kind.tag kind, modifiers := modifiers.map Modifier.toMessage,
      fields := fields.map Variable.toMessage, methods := methods.map Method.toMessage,
      parents := parents.map TypeRef.toMessage, nested := Declaration.toMessages nested }

/-- The messages of declarations. -/
def Declaration.toMessages : List Declaration → List Message.Declaration
  | [] => []
  | d :: ds => d.toMessage :: Declaration.toMessages ds

end

/-- The message of a namespace. -/
def Namespace.toMessage (n : Namespace) : Message.Namespace where
  name := n.name
  modifiers := n.modifiers.map Modifier.toMessage
  declarations := n.declarations.map Declaration.toMessage

/-- The message of a source file. -/
def Root.toMessage (r : Root) : Message.Root where
  imports := r.imports
  namespaces := r.namespaces.map Namespace.toMessage

/-- The canonical serialized form of a source file. -/
def Root.toBytes (r : Root) : Wire.Bytes :=
  r.toMessage.encode

/-! ### Lists of nodes -/

/-- The messages of a list of expressions are those of its members. -/
@[simp] theorem Expression.toMessages_eq_map (es : List Expression) :
    Expression.toMessages es = es.map Expression.toMessage := by
  induction es with
  | nil => rfl
  | cons e es ih => rw [Expression.toMessages, ih, List.map_cons]

/-- The messages of a list of variables are those of its members. -/
@[simp] theorem Variable.toMessages_eq_map (vs : List Variable) :
    Variable.toMessages vs = vs.map Variable.toMessage := by
  induction vs with
  | nil => rfl
  | cons v vs ih => rw [Variable.toMessages, ih, List.map_cons]

/-- The messages of a list of statements are those of its members. -/
@[simp] theorem Statement.toMessages_eq_map (ss : List Statement) :
    Statement.toMessages ss = ss.map Statement.toMessage := by
  induction ss with
  | nil => rfl
  | cons s ss ih => rw [Statement.toMessages, ih, List.map_cons]

/-- The messages of a list of declarations are those of its members. -/
@[simp] theorem Declaration.toMessages_eq_map (ds : List Declaration) :
    Declaration.toMessages ds = ds.map Declaration.toMessage := by
  induction ds with
  | nil => rfl
  | cons d ds ih => rw [Declaration.toMessages, ih, List.map_cons]

end Arbor
