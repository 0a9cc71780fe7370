import Arbor.Kind

/-!
# Nodes of a syntax tree

The syntax tree of a source file has nine types of node.  A `Root` holds namespaces,
a namespace holds declarations, and declarations, methods, statements, expressions and
variables nest below them.  Children that a source file may leave out are still there:
a missing expression is the placeholder `Expression.placeholder`, a missing type is the
unnamed type of kind `other`.

Statements nest in statements and declarations in declarations; expressions and
variables nest in each other, since an expression may declare variables and a variable
has an initializer.

## Main declarations

* `Root`, `Namespace`, `Declaration`, `Method`, `Variable`, `Statement`, `Expression`,
  `Modifier`, `TypeRef`: the nine types.
* `Node`: a node of any type.
-/

namespace Arbor

/-- The mention of a type. -/
structure TypeRef where
  name : String := ""
  kind : DeclarationKind := .other
  deriving DecidableEq, Inhabited

/-- A modifier or annotation of a namespace, declaration, method or variable. -/
structure Modifier where
  name : String := ""
  kind : ModifierKind := .other
  membersAndValues : List String := []
  visibility : Visibility := .unstated
  other : String := ""
  deriving DecidableEq, Inhabited

mutual

/-- An expression.  The texts name the literal, the called method and the variable it is
about, as far as its kind has one. -/
structure Expression where
  kind : ExpressionKind := .other
  literal : String := ""
  methodName : String := ""
  variableName : String := ""
  arguments : List Expression := []
  declared : List Variable := []
  isPostfix : Bool := false
  newType : TypeRef := {}
  operands : List Expression := []

/-- A variable, field or method argument. -/
structure Variable where
  name : String := ""
  type : TypeRef := {}
  initializer : Expression
  modifiers : List Modifier := []

end

/-- The expression that stands where the source has none. -/
def Expression.placeholder : Expression := {}

instance : Inhabited Expression := ⟨.placeholder⟩

instance : Inhabited Variable := ⟨{ initializer := .placeholder }⟩

/-- A statement with the expressions and statements it is made of. -/
structure Statement where
  kind : StatementKind := .other
  expressions : List Expression := []
  condition : Expression := .placeholder
  statements : List Statement := []
  initializations : List Expression := []
  updates : List Expression := []
  deriving Inhabited

/-- A method.  Its body is a list of statements, or of bare expressions in `content`. -/
structure Method where
  name : String := ""
  returnType : TypeRef := {}
  modifiers : List Modifier := []
  arguments : List Variable := []
  statements : List Statement := []
  content : List Expression := []
  deriving Inhabited

/-- A declared type with its members. -/
structure Declaration where
  name : String := ""
  kind : DeclarationKind := .other
  modifiers : List Modifier := []
  fields : List Variable := []
  methods : List Method := []
  parents : List TypeRef := []
  nested : List Declaration := []
  deriving Inhabited

/-- A namespace of a source file. -/
structure Namespace where
  name : String := ""
  modifiers : List Modifier := []
  declarations : List Declaration := []
  deriving Inhabited

/-- A whole source file. -/
structure Root where
  imports : List String := []
  namespaces : List Namespace := []
  deriving Inhabited

/-- A node of any of the nine types. -/
inductive Node where
  | root (r : Root)
  | ns (n : Namespace)
  | decl (d : Declaration)
  | method (m : Method)
  | var (v : Variable)
  | stmt (s : Statement)
  | expr (e : Expression)
  | mod (m : Modifier)
  | type (t : TypeRef)
  deriving Inhabited

/-! ### The placeholder -/

namespace Expression

/-- Whether an expression is the placeholder, field by field. -/
def isPlaceholder (e : Expression) : Bool :=
  e.kind == .other && e.literal == "" && e.methodName == "" && e.variableName == "" &&
    e.arguments.isEmpty && e.declared.isEmpty && !e.isPostfix && e.newType == {} &&
    e.operands.isEmpty

@[simp] theorem isPlaceholder_placeholder : placeholder.isPlaceholder = true := by
  decide

/-- The test for the placeholder is exact. -/
theorem isPlaceholder_iff {e : Expression} : e.isPlaceholder = true ↔ e = placeholder := by
  constructor
  · intro h
    obtain ⟨kind, literal, methodName, variableName, arguments, declared, isPostfix, newType,
      operands⟩ := e
    simp only [isPlaceholder, Bool.and_eq_true, beq_iff_eq, List.isEmpty_iff, Bool.not_eq_true',
      and_assoc] at h
    obtain ⟨rfl, rfl, rfl, rfl, rfl, rfl, rfl, rfl, rfl⟩ := h
    rfl
  · rintro rfl
    exact isPlaceholder_placeholder

end Expression

end Arbor
