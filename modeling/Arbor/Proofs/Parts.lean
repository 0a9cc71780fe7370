import Arbor.Proofs.Induction
import Arbor.Proofs.Misfit

/-!
# The parts of a message

A message is a tree of messages.  `Root.parts` lists them in pre-order: a message first, then what
is below it, field by field in the order of the field numbers.  Nothing is left out, however deep
it is and whatever the kinds are.

The search for a misfit is the search through this list (`Root.misfit?_eq_findSome?`), so it stops
at the first part that offends and reports a field of that part (`Root.misfit?_eq_bind_find?`).
-/

namespace Arbor.Message

/-- A message without what is below it: its type, and the numbers of the records that fit none of
its fields. -/
structure Part where
  type : Wire.MessageType
  stray : List Nat
  deriving DecidableEq, Inhabited

namespace Part

/-- Whether the number of a field of the message is among the strays. -/
def offends (p : Part) : Bool :=
  p.type.fields.any fun field => p.stray.contains field.number

/-- The misfit of the message itself. -/
def misfit? (p : Part) : Option Misfit :=
  p.type.misfit? p.stray

/-- A misfit names the message and a field whose number is among the strays. -/
lemma misfit?_eq_some {p : Part} {misfit : Misfit} (h : p.misfit? = some misfit) :
    ∃ field ∈ p.type.fields, field.number ∈ p.stray ∧ misfit = ⟨p.type.name, field.name⟩ := by
  obtain ⟨n, hn, hmisfit⟩ := List.exists_of_findSome?_eq_some h
  obtain ⟨field, hfield, rfl⟩ := Option.map_eq_some_iff.mp hmisfit
  have hnumber : field.number = n := by simpa using List.find?_some hfield
  exact ⟨field, List.mem_of_find?_eq_some hfield, hnumber ▸ hn, rfl⟩

/-- A message that offends has a misfit, any other has none. -/
lemma isSome_misfit? (p : Part) : p.misfit?.isSome = p.offends := by
  rw [Bool.eq_iff_iff, offends, List.any_eq_true, Option.isSome_iff_exists]
  constructor
  · rintro ⟨misfit, h⟩
    obtain ⟨field, hfield, hstray, -⟩ := misfit?_eq_some h
    exact ⟨field, hfield, List.contains_iff_mem.mpr hstray⟩
  · rintro ⟨field, hfield, hstray⟩
    rw [← Option.ne_none_iff_exists']
    intro hnone
    have hnumber := Wire.MessageType.misfit?_eq_none_iff.mp hnone _
      (List.contains_iff_mem.mp hstray)
    have := List.find?_eq_none.mp hnumber field hfield
    simp at this

end Part

/-! ## Messages in pre-order -/

def TypeRef.parts (m : TypeRef) : List Part :=
  [⟨.typeRef, m.stray⟩]

def Modifier.parts (m : Modifier) : List Part :=
  [⟨.mod, m.stray⟩]

mutual

/-- The expression, then its arguments, declared variables, new type and operands. -/
def Expression.parts : Expression → List Part
  | ⟨_, _, _, _, arguments, declared, _, newType, operands, stray⟩ =>
    ⟨.expr, stray⟩ :: (Expression.partsAll arguments ++ (Variable.partsAll declared ++
      (newType.toList.flatMap TypeRef.parts ++ Expression.partsAll operands)))

def Expression.partsAll : List Expression → List Part
  | [] => []
  | m :: ms => m.parts ++ Expression.partsAll ms

/-- The variable, then its type, initializer and modifiers. -/
def Variable.parts : Variable → List Part
  | ⟨_, declaredType, initializer, modifiers, stray⟩ =>
    ⟨.var, stray⟩ :: (declaredType.toList.flatMap TypeRef.parts ++
      ((match initializer with
        | none => []
        | some m => m.parts) ++ modifiers.flatMap Modifier.parts))

def Variable.partsAll : List Variable → List Part
  | [] => []
  | m :: ms => m.parts ++ Variable.partsAll ms

end

mutual

/-- The statement, then its expressions, condition, nested statements, initializations and
updates. -/
def Statement.parts : Statement → List Part
  | ⟨_, expressions, condition, statements, initializations, updates, stray⟩ =>
    ⟨.stmt, stray⟩ :: (expressions.flatMap Expression.parts ++
      (condition.toList.flatMap Expression.parts ++ (Statement.partsAll statements ++
        (initializations.flatMap Expression.parts ++ updates.flatMap Expression.parts))))

def Statement.partsAll : List Statement → List Part
  | [] => []
  | m :: ms => m.parts ++ Statement.partsAll ms

end

/-- The method, then its return type, modifiers, arguments, statements and content. -/
def Method.parts (m : Method) : List Part :=
  ⟨.method, m.stray⟩ :: (m.returnType.toList.flatMap TypeRef.parts ++
    (m.modifiers.flatMap Modifier.parts ++ (m.arguments.flatMap Variable.parts ++
      (m.statements.flatMap Statement.parts ++ m.content.flatMap Expression.parts))))

mutual

/-- The declaration, then its modifiers, fields, methods, parents and nested declarations. -/
def Declaration.parts : Declaration → List Part
  | ⟨_, _, modifiers, fields, methods, parents, nested, stray⟩ =>
    ⟨.decl, stray⟩ :: (modifiers.flatMap Modifier.parts ++ (fields.flatMap Variable.parts ++
      (methods.flatMap Method.parts ++ (parents.flatMap TypeRef.parts ++
        Declaration.partsAll nested))))

def Declaration.partsAll : List Declaration → List Part
  | [] => []
  | m :: ms => m.parts ++ Declaration.partsAll ms

end

/-- The namespace, then its modifiers and declarations. -/
def Namespace.parts (m : Namespace) : List Part :=
  ⟨.ns, m.stray⟩ :: (m.modifiers.flatMap Modifier.parts ++
    m.declarations.flatMap Declaration.parts)

/-- The source file, then its namespaces. -/
def Root.parts (m : Root) : List Part :=
  ⟨.root, m.stray⟩ :: m.namespaces.flatMap Namespace.parts

/-! ### Lists of messages -/

/-- The parts of a list of expressions are those of its members. -/
lemma Expression.partsAll_eq_flatMap (ms : List Expression) :
    Expression.partsAll ms = ms.flatMap Expression.parts := by
  induction ms with
  | nil => rfl
  | cons m ms ih => rw [Expression.partsAll, ih, List.flatMap_cons]

/-- The parts of a list of variables are those of its members. -/
lemma Variable.partsAll_eq_flatMap (ms : List Variable) :
    Variable.partsAll ms = ms.flatMap Variable.parts := by
  induction ms with
  | nil => rfl
  | cons m ms ih => rw [Variable.partsAll, ih, List.flatMap_cons]

/-- The parts of a list of statements are those of its members. -/
lemma Statement.partsAll_eq_flatMap (ms : List Statement) :
    Statement.partsAll ms = ms.flatMap Statement.parts := by
  induction ms with
  | nil => rfl
  | cons m ms ih => rw [Statement.partsAll, ih, List.flatMap_cons]

/-- The parts of a list of declarations are those of its members. -/
lemma Declaration.partsAll_eq_flatMap (ms : List Declaration) :
    Declaration.partsAll ms = ms.flatMap Declaration.parts := by
  induction ms with
  | nil => rfl
  | cons m ms ih => rw [Declaration.partsAll, ih, List.flatMap_cons]

/-! ## The search through the parts -/

section Search

variable {α : Type} {parts : α → List Part} {misfit? : α → Option Misfit}

/-- The search looks at a message before what is below it. -/
lemma findSome?_parts_cons (t : Wire.MessageType) (stray : List Nat) (below : List Part) :
    (⟨t, stray⟩ :: below : List Part).findSome? Part.misfit? =
      (t.misfit? stray).or (below.findSome? Part.misfit?) := by
  rw [List.findSome?_cons, Part.misfit?]
  cases t.misfit? stray <;> rfl

/-- The search through the parts of a list of messages goes through the messages. -/
lemma findSome?_flatMap_parts {as : List α}
    (h : ∀ a ∈ as, misfit? a = (parts a).findSome? Part.misfit?) :
    (as.flatMap parts).findSome? Part.misfit? = as.findSome? misfit? := by
  induction as with
  | nil => rfl
  | cons a as ih =>
    rw [List.flatMap_cons, List.findSome?_append, List.findSome?_cons, h a List.mem_cons_self,
      ih fun a' ha' => h a' (List.mem_cons_of_mem _ ha')]
    cases (parts a).findSome? Part.misfit? <;> rfl

/-- A message that is absent has no parts. -/
lemma findSome?_flatMap_toList_parts {o : Option α}
    (h : ∀ a ∈ o, misfit? a = (parts a).findSome? Part.misfit?) :
    (o.toList.flatMap parts).findSome? Part.misfit? = o.bind misfit? := by
  cases o with
  | none => rfl
  | some a => simpa using (h a rfl).symm

end Search

/-- The misfit of a type is the first among its parts. -/
lemma TypeRef.misfit?_eq_findSome? (m : TypeRef) :
    m.misfit? = m.parts.findSome? Part.misfit? := by
  rw [TypeRef.parts, findSome?_parts_cons, TypeRef.misfit?, List.findSome?_nil, Option.or_none]

/-- The misfit of a modifier is the first among its parts. -/
lemma Modifier.misfit?_eq_findSome? (m : Modifier) :
    m.misfit? = m.parts.findSome? Part.misfit? := by
  rw [Modifier.parts, findSome?_parts_cons, Modifier.misfit?, List.findSome?_nil, Option.or_none]

/-- Expressions and variables contain each other, so their parts are searched by one induction. -/
lemma misfit?_eq_findSome?_nested :
    (∀ m : Expression, m.misfit? = m.parts.findSome? Part.misfit?) ∧
      ∀ m : Variable, m.misfit? = m.parts.findSome? Part.misfit? := by
  apply nested_induction
  · intro m iharguments ihdeclared ihoperands
    obtain ⟨_, _, _, _, arguments, declared, _, newType, operands, stray⟩ := m
    simp only [Expression.misfit?, Expression.firstMisfit?_eq_findSome?,
      Variable.firstMisfit?_eq_findSome?]
    rw [Expression.parts, Expression.partsAll_eq_flatMap, Variable.partsAll_eq_flatMap,
      Expression.partsAll_eq_flatMap, findSome?_parts_cons, List.findSome?_append,
      List.findSome?_append, List.findSome?_append, findSome?_flatMap_parts iharguments,
      findSome?_flatMap_parts ihdeclared, findSome?_flatMap_parts ihoperands,
      findSome?_flatMap_toList_parts fun t _ => t.misfit?_eq_findSome?]
  · intro m ihinitializer
    obtain ⟨_, declaredType, initializer, modifiers, stray⟩ := m
    unfold Variable.misfit? Variable.parts
    rw [findSome?_parts_cons, List.findSome?_append, List.findSome?_append,
      findSome?_flatMap_toList_parts fun t _ => t.misfit?_eq_findSome?,
      findSome?_flatMap_parts fun n _ => n.misfit?_eq_findSome?]
    cases initializer with
    | none => rfl
    | some e => simp only [ihinitializer e rfl]

/-- The misfit of an expression is the first among its parts. -/
lemma Expression.misfit?_eq_findSome? (m : Expression) :
    m.misfit? = m.parts.findSome? Part.misfit? :=
  misfit?_eq_findSome?_nested.1 m

/-- The misfit of a variable is the first among its parts. -/
lemma Variable.misfit?_eq_findSome? (m : Variable) :
    m.misfit? = m.parts.findSome? Part.misfit? :=
  misfit?_eq_findSome?_nested.2 m

/-- The misfit of a statement is the first among its parts. -/
lemma Statement.misfit?_eq_findSome? (m : Statement) :
    m.misfit? = m.parts.findSome? Part.misfit? := by
  induction m using Statement.nested_induction with
  | hstmt m ih =>
    obtain ⟨_, expressions, condition, statements, initializations, updates, stray⟩ := m
    rw [Statement.misfit?, Statement.firstMisfit?_eq_findSome?, Statement.parts,
      Statement.partsAll_eq_flatMap, findSome?_parts_cons, List.findSome?_append,
      List.findSome?_append, List.findSome?_append, List.findSome?_append,
      findSome?_flatMap_parts fun e _ => e.misfit?_eq_findSome?,
      findSome?_flatMap_toList_parts fun e _ => e.misfit?_eq_findSome?,
      findSome?_flatMap_parts ih,
      findSome?_flatMap_parts fun e _ => e.misfit?_eq_findSome?,
      findSome?_flatMap_parts fun e _ => e.misfit?_eq_findSome?]

/-- The misfit of a method is the first among its parts. -/
lemma Method.misfit?_eq_findSome? (m : Method) :
    m.misfit? = m.parts.findSome? Part.misfit? := by
  rw [Method.misfit?, Method.parts, findSome?_parts_cons, List.findSome?_append,
    List.findSome?_append, List.findSome?_append, List.findSome?_append,
    findSome?_flatMap_toList_parts fun t _ => t.misfit?_eq_findSome?,
    findSome?_flatMap_parts fun n _ => n.misfit?_eq_findSome?,
    findSome?_flatMap_parts fun v _ => v.misfit?_eq_findSome?,
    findSome?_flatMap_parts fun s _ => s.misfit?_eq_findSome?,
    findSome?_flatMap_parts fun e _ => e.misfit?_eq_findSome?]

/-- The misfit of a declaration is the first among its parts. -/
lemma Declaration.misfit?_eq_findSome? (m : Declaration) :
    m.misfit? = m.parts.findSome? Part.misfit? := by
  induction m using Declaration.nested_induction with
  | hdecl m ih =>
    obtain ⟨_, _, modifiers, fields, methods, parents, nested, stray⟩ := m
    rw [Declaration.misfit?, Declaration.firstMisfit?_eq_findSome?, Declaration.parts,
      Declaration.partsAll_eq_flatMap, findSome?_parts_cons, List.findSome?_append,
      List.findSome?_append, List.findSome?_append, List.findSome?_append,
      findSome?_flatMap_parts fun n _ => n.misfit?_eq_findSome?,
      findSome?_flatMap_parts fun v _ => v.misfit?_eq_findSome?,
      findSome?_flatMap_parts fun n _ => n.misfit?_eq_findSome?,
      findSome?_flatMap_parts fun t _ => t.misfit?_eq_findSome?,
      findSome?_flatMap_parts ih]

/-- The misfit of a namespace is the first among its parts. -/
lemma Namespace.misfit?_eq_findSome? (m : Namespace) :
    m.misfit? = m.parts.findSome? Part.misfit? := by
  rw [Namespace.misfit?, Namespace.parts, findSome?_parts_cons, List.findSome?_append,
    findSome?_flatMap_parts fun n _ => n.misfit?_eq_findSome?,
    findSome?_flatMap_parts fun d _ => d.misfit?_eq_findSome?]

/-- The first misfit of a source file is the misfit of the first of its parts that has one. -/
theorem Root.misfit?_eq_findSome? (m : Root) : m.misfit? = m.parts.findSome? Part.misfit? := by
  rw [Root.misfit?, Root.parts, findSome?_parts_cons,
    findSome?_flatMap_parts fun n _ => n.misfit?_eq_findSome?]

/-- The first part that offends has the misfit that is found. -/
lemma Root.misfit?_eq_bind_find? (m : Root) :
    m.misfit? = (m.parts.find? Part.offends).bind Part.misfit? := by
  rw [Root.misfit?_eq_findSome?]
  induction m.parts with
  | nil => rfl
  | cons part parts ih =>
    have hsome := part.isSome_misfit?
    rw [List.findSome?_cons, List.find?_cons, ih]
    cases hmisfit : part.misfit? <;> simp_all

end Arbor.Message
