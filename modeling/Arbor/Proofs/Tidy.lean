import Arbor.Message.Prune
import Arbor.Proofs.Embedding

/-!
# Tidy messages

Two messages may say the same in different ways: a single submessage in which every field
has its default value says no more than an absent one, and strays say nothing at all.
`Root.tidy` takes both out, from the bottom up, so that a submessage that is left with
defaults only once its own submessages are tidied is taken out as well.

A node leaves out its single children in the same way when it is turned into a message:
`TypeRef.toMessage?_eq_filter` and `Expression.toMessage?_eq_filter` say that what it
leaves out is exactly what tidying would take out.
-/

namespace Arbor

namespace Message

/-! ### Tidying -/

/-- Forget the strays of a type mention. -/
def TypeRef.tidy (m : TypeRef) : TypeRef :=
  { m with stray := [] }

/-- A type mention that says something, tidied. -/
def TypeRef.tidy? (o : Option TypeRef) : Option TypeRef :=
  (o.map TypeRef.tidy).filter (· ≠ {})

/-- Forget the strays of a modifier. -/
def Modifier.tidy (m : Modifier) : Modifier :=
  { m with stray := [] }

/-- Whether all fields of an expression have their default values. -/
def Expression.isDefault (m : Expression) : Bool :=
  m.kind == 0 && m.literal == "" && m.methodName == "" && m.variableName == "" &&
    m.arguments.isEmpty && m.declared.isEmpty && !m.isPostfix && m.newType.isNone &&
    m.operands.isEmpty && m.stray.isEmpty

mutual

/-- Tidy an expression. -/
def Expression.tidy : Expression → Expression
  | ⟨kind, literal, methodName, variableName, arguments, declared, isPostfix, newType, operands,
      _⟩ =>
    { kind, literal, methodName, variableName, arguments := Expression.tidyAll arguments,
      declared := Variable.tidyAll declared, isPostfix, newType := TypeRef.tidy? newType,
      operands := Expression.tidyAll operands }

/-- Tidy expressions. -/
def Expression.tidyAll : List Expression → List Expression
  | [] => []
  | m :: ms => m.tidy :: Expression.tidyAll ms

/-- Tidy a variable. -/
def Variable.tidy : Variable → Variable
  | ⟨name, declaredType, initializer, modifiers, _⟩ =>
    { name, declaredType := TypeRef.tidy? declaredType,
      initializer :=
        match initializer with
        | none => none
        | some m => if m.tidy.isDefault then none else some m.tidy,
      modifiers := modifiers.map Modifier.tidy }

/-- Tidy variables. -/
def Variable.tidyAll : List Variable → List Variable
  | [] => []
  | m :: ms => m.tidy :: Variable.tidyAll ms

end

/-- An expression that says something, tidied. -/
def Expression.tidy? (o : Option Expression) : Option Expression :=
  (o.map Expression.tidy).filter (!·.isDefault)

mutual

/-- Tidy a statement. -/
def Statement.tidy : Statement → Statement
  | ⟨kind, expressions, condition, statements, initializations, updates, _⟩ =>
    { kind, expressions := expressions.map Expression.tidy,
      condition := Expression.tidy? condition, statements := Statement.tidyAll statements,
      initializations := initializations.map Expression.tidy,
      updates := updates.map Expression.tidy }

/-- Tidy statements. -/
def Statement.tidyAll : List Statement → List Statement
  | [] => []
  | m :: ms => m.tidy :: Statement.tidyAll ms

end

/-- Tidy a method. -/
def Method.tidy (m : Method) : Method where
  name := m.name
  returnType := TypeRef.tidy? m.returnType
  modifiers := m.modifiers.map Modifier.tidy
  arguments := m.arguments.map Variable.tidy
  statements := m.statements.map Statement.tidy
  content := m.content.map Expression.tidy

mutual

/-- Tidy a declaration. -/
def Declaration.tidy : Declaration → Declaration
  | ⟨name, kind, modifiers, fields, methods, parents, nested, _⟩ =>
    { name, kind, modifiers := modifiers.map Modifier.tidy, fields := fields.map Variable.tidy,
      methods := methods.map Method.tidy, parents := parents.map TypeRef.tidy,
      nested := Declaration.tidyAll nested }

/-- Tidy declarations. -/
def Declaration.tidyAll : List Declaration → List Declaration
  | [] => []
  | m :: ms => m.tidy :: Declaration.tidyAll ms

end

/-- Tidy a namespace. -/
def Namespace.tidy (m : Namespace) : Namespace where
  name := m.name
  modifiers := m.modifiers.map Modifier.tidy
  declarations := m.declarations.map Declaration.tidy

/-- Tidy a source file. -/
def Root.tidy (m : Root) : Root where
  imports := m.imports
  namespaces := m.namespaces.map Namespace.tidy

/-! ### Tidying in terms of the fields -/

/-- The test for the default expression is exact. -/
lemma Expression.isDefault_iff {m : Expression} : m.isDefault = true ↔ m = {} := by
  constructor
  · intro h
    obtain ⟨kind, literal, methodName, variableName, arguments, declared, isPostfix, newType,
      operands, stray⟩ := m
    simp only [isDefault, Bool.and_eq_true, beq_iff_eq, List.isEmpty_iff, Bool.not_eq_true',
      Option.isNone_iff_eq_none, and_assoc] at h
    obtain ⟨rfl, rfl, rfl, rfl, rfl, rfl, rfl, rfl, rfl, rfl⟩ := h
    rfl
  · rintro rfl
    rfl

/-- A list of expressions is tidied member by member. -/
lemma Expression.tidyAll_eq_map (ms : List Expression) :
    Expression.tidyAll ms = ms.map Expression.tidy := by
  induction ms with
  | nil => rfl
  | cons m ms ih => rw [Expression.tidyAll, ih, List.map_cons]

/-- A list of variables is tidied member by member. -/
lemma Variable.tidyAll_eq_map (ms : List Variable) :
    Variable.tidyAll ms = ms.map Variable.tidy := by
  induction ms with
  | nil => rfl
  | cons m ms ih => rw [Variable.tidyAll, ih, List.map_cons]

/-- A list of statements is tidied member by member. -/
lemma Statement.tidyAll_eq_map (ms : List Statement) :
    Statement.tidyAll ms = ms.map Statement.tidy := by
  induction ms with
  | nil => rfl
  | cons m ms ih => rw [Statement.tidyAll, ih, List.map_cons]

/-- A list of declarations is tidied member by member. -/
lemma Declaration.tidyAll_eq_map (ms : List Declaration) :
    Declaration.tidyAll ms = ms.map Declaration.tidy := by
  induction ms with
  | nil => rfl
  | cons m ms ih => rw [Declaration.tidyAll, ih, List.map_cons]

/-- Tidying an expression, field by field. -/
lemma Expression.tidy_eq (m : Expression) :
    m.tidy =
      { kind := m.kind, literal := m.literal, methodName := m.methodName,
        variableName := m.variableName, arguments := m.arguments.map Expression.tidy,
        declared := m.declared.map Variable.tidy, isPostfix := m.isPostfix,
        newType := TypeRef.tidy? m.newType, operands := m.operands.map Expression.tidy } := by
  cases m
  simp only [Expression.tidy, Expression.tidyAll_eq_map, Variable.tidyAll_eq_map]

/-- Tidying a variable, field by field. -/
lemma Variable.tidy_eq (m : Variable) :
    m.tidy =
      { name := m.name, declaredType := TypeRef.tidy? m.declaredType,
        initializer := Expression.tidy? m.initializer,
        modifiers := m.modifiers.map Modifier.tidy } := by
  obtain ⟨name, declaredType, initializer, modifiers, stray⟩ := m
  cases initializer with
  | none => rfl
  | some e =>
    rw [Variable.tidy, Expression.tidy?]
    cases h : e.tidy.isDefault <;> simp [h, Option.filter]

/-- Tidying a statement, field by field. -/
lemma Statement.tidy_eq (m : Statement) :
    m.tidy =
      { kind := m.kind, expressions := m.expressions.map Expression.tidy,
        condition := Expression.tidy? m.condition,
        statements := m.statements.map Statement.tidy,
        initializations := m.initializations.map Expression.tidy,
        updates := m.updates.map Expression.tidy } := by
  cases m
  simp only [Statement.tidy, Statement.tidyAll_eq_map]

/-- Tidying a declaration, field by field. -/
lemma Declaration.tidy_eq (m : Declaration) :
    m.tidy =
      { name := m.name, kind := m.kind, modifiers := m.modifiers.map Modifier.tidy,
        fields := m.fields.map Variable.tidy, methods := m.methods.map Method.tidy,
        parents := m.parents.map TypeRef.tidy, nested := m.nested.map Declaration.tidy } := by
  cases m
  simp only [Declaration.tidy, Declaration.tidyAll_eq_map]

end Message

/-! ### What a node leaves out -/

/-- The message of a type, where it may be absent, is there exactly if it says something. -/
lemma TypeRef.toMessage?_eq_filter (t : TypeRef) :
    t.toMessage? = (some t.toMessage).filter (· ≠ {}) := by
  unfold toMessage?
  by_cases h : t = {}
  · rw [if_pos h, Option.filter, if_neg (by simpa using TypeRef.toMessage_eq_default_iff.mpr h)]
  · rw [if_neg h, Option.filter,
      if_pos (by simpa using fun h' => h (TypeRef.toMessage_eq_default_iff.mp h'))]

/-- The message of an expression, where it may be absent, is there exactly if it says
something. -/
lemma Expression.toMessage?_eq_filter (e : Expression) :
    e.toMessage? = (some e.toMessage).filter (!·.isDefault) := by
  have hdefault : e.toMessage.isDefault = e.isPlaceholder := by
    rw [Bool.eq_iff_iff, Message.Expression.isDefault_iff, Expression.isPlaceholder_iff]
    exact Expression.toMessage_eq_default_iff
  unfold toMessage?
  rw [← hdefault]
  cases h : e.toMessage.isDefault <;> simp [h, Option.filter]

end Arbor
