import Arbor.Message
import Arbor.Wire.Encode

/-!
# Records of a message

The records of a message in canonical form: fields stand in the order of their numbers,
and a text, kind or flag that has its default value is left out.  Members of repeated
fields are never left out.
-/

namespace Arbor.Message

open Wire (Record)

/-- The record of a text that is not empty. -/
def textRecord (number : Nat) (s : String) : List Record :=
  if s = "" then [] else [.text number s]

/-- The record of a kind that is not the default. -/
def kindRecord (number : Nat) (tag : Int) : List Record :=
  if tag = 0 then [] else [.kind number tag]

/-- The record of a flag that is set. -/
def flagRecord (number : Nat) (b : Bool) : List Record :=
  if b then [.flag number b] else []

/-- The records of a type mention. -/
def TypeRef.records (m : TypeRef) : List Record :=
  textRecord 1 m.name ++ kindRecord 2 m.kind

/-- The records of a modifier. -/
def Modifier.records (m : Modifier) : List Record :=
  textRecord 1 m.name ++ kindRecord 2 m.kind ++ m.membersAndValues.map (.text 3) ++
    kindRecord 4 m.visibility ++ textRecord 5 m.other

mutual

/-- The records of an expression. -/
def Expression.records : Expression → List Record
  | ⟨kind, literal, methodName, variableName, arguments, declared, isPostfix, newType, operands,
      _⟩ =>
    kindRecord 1 kind ++ textRecord 2 literal ++ textRecord 3 methodName ++
      textRecord 4 variableName ++ Expression.recordsAll 5 arguments ++
      Variable.recordsAll 6 declared ++ flagRecord 7 isPostfix ++
      newType.toList.map (fun m => .message 8 m.records) ++ Expression.recordsAll 9 operands

/-- One record of the given number for each expression. -/
def Expression.recordsAll (number : Nat) : List Expression → List Record
  | [] => []
  | m :: ms => .message number m.records :: Expression.recordsAll number ms

/-- The records of a variable. -/
def Variable.records : Variable → List Record
  | ⟨name, declaredType, initializer, modifiers, _⟩ =>
    textRecord 1 name ++ declaredType.toList.map (fun m => .message 2 m.records) ++
      (match initializer with
        | none => []
        | some m => [.message 3 m.records]) ++
      modifiers.map (fun m => .message 4 m.records)

/-- One record of the given number for each variable. -/
def Variable.recordsAll (number : Nat) : List Variable → List Record
  | [] => []
  | m :: ms => .message number m.records :: Variable.recordsAll number ms

end

mutual

/-- The records of a statement. -/
def Statement.records : Statement → List Record
  | ⟨kind, expressions, condition, statements, initializations, updates, _⟩ =>
    kindRecord 1 kind ++ expressions.map (fun m => .message 2 m.records) ++
      condition.toList.map (fun m => .message 3 m.records) ++
      Statement.recordsAll 4 statements ++
      initializations.map (fun m => .message 5 m.records) ++
      updates.map (fun m => .message 6 m.records)

/-- One record of the given number for each statement. -/
def Statement.recordsAll (number : Nat) : List Statement → List Record
  | [] => []
  | m :: ms => .message number m.records :: Statement.recordsAll number ms

end

/-- The records of a method. -/
def Method.records (m : Method) : List Record :=
  textRecord 1 m.name ++ m.returnType.toList.map (fun m => .message 2 m.records) ++
    m.modifiers.map (fun m => .message 3 m.records) ++
    m.arguments.map (fun m => .message 4 m.records) ++
    m.statements.map (fun m => .message 5 m.records) ++
    m.content.map (fun m => .message 6 m.records)

mutual

/-- The records of a declaration. -/
def Declaration.records : Declaration → List Record
  | ⟨name, kind, modifiers, fields, methods, parents, nested, _⟩ =>
    textRecord 1 name ++ kindRecord 2 kind ++ modifiers.map (fun m => .message 3 m.records) ++
      fields.map (fun m => .message 4 m.records) ++
      methods.map (fun m => .message 5 m.records) ++
      parents.map (fun m => .message 6 m.records) ++ Declaration.recordsAll 7 nested

/-- One record of the given number for each declaration. -/
def Declaration.recordsAll (number : Nat) : List Declaration → List Record
  | [] => []
  | m :: ms => .message number m.records :: Declaration.recordsAll number ms

end

/-- The records of a namespace. -/
def Namespace.records (m : Namespace) : List Record :=
  textRecord 1 m.name ++ m.modifiers.map (fun m => .message 2 m.records) ++
    m.declarations.map (fun m => .message 3 m.records)

/-- The records of a source file. -/
def Root.records (m : Root) : List Record :=
  m.imports.map (.text 1) ++ m.namespaces.map (fun m => .message 2 m.records)

/-- The canonical bytes of a source file. -/
def Root.encode (m : Root) : Wire.Bytes :=
  Wire.encode m.records

/-! ### Lists of messages -/

/-- Each member of a list of expressions has a record. -/
@[simp] theorem Expression.recordsAll_eq_map (number : Nat) (ms : List Expression) :
    Expression.recordsAll number ms = ms.map fun m => .message number m.records := by
  induction ms with
  | nil => rfl
  | cons m ms ih => rw [Expression.recordsAll, ih, List.map_cons]

/-- Each member of a list of variables has a record. -/
@[simp] theorem Variable.recordsAll_eq_map (number : Nat) (ms : List Variable) :
    Variable.recordsAll number ms = ms.map fun m => .message number m.records := by
  induction ms with
  | nil => rfl
  | cons m ms ih => rw [Variable.recordsAll, ih, List.map_cons]

/-- Each member of a list of statements has a record. -/
@[simp] theorem Statement.recordsAll_eq_map (number : Nat) (ms : List Statement) :
    Statement.recordsAll number ms = ms.map fun m => .message number m.records := by
  induction ms with
  | nil => rfl
  | cons m ms ih => rw [Statement.recordsAll, ih, List.map_cons]

/-- Each member of a list of declarations has a record. -/
@[simp] theorem Declaration.recordsAll_eq_map (number : Nat) (ms : List Declaration) :
    Declaration.recordsAll number ms = ms.map fun m => .message number m.records := by
  induction ms with
  | nil => rfl
  | cons m ms ih => rw [Declaration.recordsAll, ih, List.map_cons]

end Arbor.Message
