import Arbor.Census
import Arbor.Json

/-!
# Nodes as JSON

A node is an object with one member for each of its fields.  The members stand in a
fixed order, and all of them are there, also those of empty lists and placeholders.
-/

namespace Arbor

/-- A kind is written by name. -/
def Kind.toJson {κ : Type} [Kind κ] (k : κ) : Json :=
  .str (Kind.name k)

/-- A type mention as JSON. -/
def TypeRef.toJson (t : TypeRef) : Json :=
  .obj [("name", .str t.name), ("kind", Kind.toJson t.kind)]

/-- A modifier as JSON. -/
def Modifier.toJson (m : Modifier) : Json :=
  .obj [("name", .str m.name), ("kind", Kind.toJson m.kind),
    ("members_and_values", .texts m.membersAndValues), ("visibility", Kind.toJson m.visibility),
    ("other", .str m.other)]

mutual

/-- An expression as JSON. -/
def Expression.toJson : Expression → Json
  | ⟨kind, literal, methodName, variableName, arguments, declared, isPostfix, newType,
      operands⟩ =>
    .obj [("kind", Kind.toJson kind), ("literal", .str literal), ("method", .str methodName),
      ("variable", .str variableName), ("method_arguments", .arr (Expression.toJsons arguments)),
      ("variable_declarations", .arr (Variable.toJsons declared)),
      ("is_postfix", .bool isPostfix), ("new_type", newType.toJson),
      ("expressions", .arr (Expression.toJsons operands))]

/-- Expressions as JSON. -/
def Expression.toJsons : List Expression → List Json
  | [] => []
  | e :: es => e.toJson :: Expression.toJsons es

/-- A variable as JSON. -/
def Variable.toJson : Variable → Json
  | ⟨name, type, initializer, modifiers⟩ =>
    .obj [("name", .str name), ("type", type.toJson), ("initializer", initializer.toJson),
      ("modifiers", .arr (modifiers.map Modifier.toJson))]

/-- Variables as JSON. -/
def Variable.toJsons : List Variable → List Json
  | [] => []
  | v :: vs => v.toJson :: Variable.toJsons vs

end

mutual

/-- A statement as JSON. -/
def Statement.toJson : Statement → Json
  | ⟨kind, expressions, condition, statements, initializations, updates⟩ =>
    .obj [("kind", Kind.toJson kind), ("expressions", .arr (expressions.map Expression.toJson)),
      ("condition", condition.toJson), ("statements", .arr (Statement.toJsons statements)),
      ("initializations", .arr (initializations.map Expression.toJson)),
      ("updates", .arr (updates.map Expression.toJson))]

/-- Statements as JSON. -/
def Statement.toJsons : List Statement → List Json
  | [] => []
  | s :: ss => s.toJson :: Statement.toJsons ss

end

/-- A method as JSON. -/
def Method.toJson (m : Method) : Json :=
  .obj [("name", .str m.name), ("return_type", m.returnType.toJson),
    ("modifiers", .arr (m.modifiers.map Modifier.toJson)),
    ("arguments", .arr (m.arguments.map Variable.toJson)),
    ("statements", .arr (m.statements.map Statement.toJson)),
    ("body_content", .arr (m.content.map Expression.toJson))]

mutual

/-- A declaration as JSON. -/
def Declaration.toJson : Declaration → Json
  | ⟨name, kind, modifiers, fields, methods, parents, nested⟩ =>
    .obj [("name", .str name), ("kind", Kind.toJson kind),
      ("modifiers", .arr (modifiers.map Modifier.toJson)),
      ("fields", .arr (fields.map Variable.toJson)),
      ("methods", .arr (methods.map Method.toJson)),
      ("parents", .arr (parents.map TypeRef.toJson)),
      ("nested_declarations", .arr (Declaration.toJsons nested))]

/-- Declarations as JSON. -/
def Declaration.toJsons : List Declaration → List Json
  | [] => []
  | d :: ds => d.toJson :: Declaration.toJsons ds

end

/-- A namespace as JSON. -/
def Namespace.toJson (n : Namespace) : Json :=
  .obj [("name", .str n.name), ("modifiers", .arr (n.modifiers.map Modifier.toJson)),
    ("declarations", .arr (n.declarations.map Declaration.toJson))]

/-- A source file as JSON. -/
def Root.toJson (r : Root) : Json :=
  .obj [("imports", .texts r.imports), ("namespaces", .arr (r.namespaces.map Namespace.toJson))]

/-- A node of any type as JSON. -/
def Node.toJson : Node → Json
  | .root r => r.toJson
  | .ns n => n.toJson
  | .decl d => d.toJson
  | .method m => m.toJson
  | .var v => v.toJson
  | .stmt s => s.toJson
  | .expr e => e.toJson
  | .mod m => m.toJson
  | .type t => t.toJson

/-- The numbers of a census as JSON. -/
def Census.toJson (c : Census) : Json :=
  .obj [("roots", .num c.roots), ("namespaces", .num c.namespaces),
    ("declarations", .num c.declarations), ("methods", .num c.methods),
    ("variables", .num c.vars), ("statements", .num c.statements),
    ("expressions", .num c.expressions), ("modifiers", .num c.modifiers),
    ("types", .num c.types)]

/-! ### Lists of nodes -/

/-- The values of a list of expressions are those of its members. -/
@[simp] theorem Expression.toJsons_eq_map (es : List Expression) :
    Expression.toJsons es = es.map Expression.toJson := by
  induction es with
  | nil => rfl
  | cons e es ih => rw [Expression.toJsons, ih, List.map_cons]

/-- The values of a list of variables are those of its members. -/
@[simp] theorem Variable.toJsons_eq_map (vs : List Variable) :
    Variable.toJsons vs = vs.map Variable.toJson := by
  induction vs with
  | nil => rfl
  | cons v vs ih => rw [Variable.toJsons, ih, List.map_cons]

/-- The values of a list of statements are those of its members. -/
@[simp] theorem Statement.toJsons_eq_map (ss : List Statement) :
    Statement.toJsons ss = ss.map Statement.toJson := by
  induction ss with
  | nil => rfl
  | cons s ss ih => rw [Statement.toJsons, ih, List.map_cons]

/-- The values of a list of declarations are those of its members. -/
@[simp] theorem Declaration.toJsons_eq_map (ds : List Declaration) :
    Declaration.toJsons ds = ds.map Declaration.toJson := by
  induction ds with
  | nil => rfl
  | cons d ds ih => rw [Declaration.toJsons, ih, List.map_cons]

end Arbor
