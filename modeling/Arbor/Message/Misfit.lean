import Arbor.Message

/-!
# Records of the wrong wire type

A record whose number belongs to a field, but whose wire type does not, is a misfit.  It
was skipped when the message was read, and its number was remembered.  `Root.misfit?`
finds the first misfit of a source file: a message is looked at before its submessages,
and the submessages in the order of the field numbers.  Numbers that belong to no field
are no misfits.
-/

namespace Arbor

/-- A field that occurs with the wrong wire type. -/
structure Misfit where
  message : String
  field : String
  deriving DecidableEq, Inhabited

/-- The first of the given numbers that belongs to a field.  The numbers are those of the skipped
records in the order of their arrival.  The runtime keeps them in a hash map, so that it may report
any of them: where a message has misfits in several fields, the choice of the first is made here. -/
def Wire.MessageType.misfit? (t : Wire.MessageType) (stray : List Nat) : Option Misfit :=
  stray.findSome? fun n => (t.field? n).map fun f => ⟨t.name, f.name⟩

namespace Message

/-- The misfit of a type mention. -/
def TypeRef.misfit? (m : TypeRef) : Option Misfit :=
  Wire.MessageType.typeRef.misfit? m.stray

/-- The misfit of a modifier. -/
def Modifier.misfit? (m : Modifier) : Option Misfit :=
  Wire.MessageType.mod.misfit? m.stray

mutual

/-- The first misfit of an expression: its own, then those of its arguments, declared
variables, new type and operands. -/
def Expression.misfit? : Expression → Option Misfit
  | ⟨_, _, _, _, arguments, declared, _, newType, operands, stray⟩ =>
    (Wire.MessageType.expr.misfit? stray).or <|
      (Expression.firstMisfit? arguments).or <|
        (Variable.firstMisfit? declared).or <|
          (newType.bind TypeRef.misfit?).or <| Expression.firstMisfit? operands

/-- The first misfit of a list of expressions. -/
def Expression.firstMisfit? : List Expression → Option Misfit
  | [] => none
  | m :: ms => m.misfit?.or (Expression.firstMisfit? ms)

/-- The first misfit of a variable: its own, then those of its type, initializer and
modifiers. -/
def Variable.misfit? : Variable → Option Misfit
  | ⟨_, declaredType, initializer, modifiers, stray⟩ =>
    (Wire.MessageType.var.misfit? stray).or <|
      (declaredType.bind TypeRef.misfit?).or <|
        (match initializer with
          | none => none
          | some e => e.misfit?).or <|
          modifiers.findSome? Modifier.misfit?

/-- The first misfit of a list of variables. -/
def Variable.firstMisfit? : List Variable → Option Misfit
  | [] => none
  | m :: ms => m.misfit?.or (Variable.firstMisfit? ms)

end

mutual

/-- The first misfit of a statement: its own, then those of its expressions, condition,
nested statements, initializations and updates. -/
def Statement.misfit? : Statement → Option Misfit
  | ⟨_, expressions, condition, statements, initializations, updates, stray⟩ =>
    (Wire.MessageType.stmt.misfit? stray).or <|
      (expressions.findSome? Expression.misfit?).or <|
        (condition.bind Expression.misfit?).or <|
          (Statement.firstMisfit? statements).or <|
            (initializations.findSome? Expression.misfit?).or <|
              updates.findSome? Expression.misfit?

/-- The first misfit of a list of statements. -/
def Statement.firstMisfit? : List Statement → Option Misfit
  | [] => none
  | m :: ms => m.misfit?.or (Statement.firstMisfit? ms)

end

/-- The first misfit of a method: its own, then those of its return type, modifiers,
arguments, statements and content. -/
def Method.misfit? (m : Method) : Option Misfit :=
  (Wire.MessageType.method.misfit? m.stray).or <|
    (m.returnType.bind TypeRef.misfit?).or <|
      (m.modifiers.findSome? Modifier.misfit?).or <|
        (m.arguments.findSome? Variable.misfit?).or <|
          (m.statements.findSome? Statement.misfit?).or <|
            m.content.findSome? Expression.misfit?

mutual

/-- The first misfit of a declaration: its own, then those of its modifiers, fields,
methods, parents and nested declarations. -/
def Declaration.misfit? : Declaration → Option Misfit
  | ⟨_, _, modifiers, fields, methods, parents, nested, stray⟩ =>
    (Wire.MessageType.decl.misfit? stray).or <|
      (modifiers.findSome? Modifier.misfit?).or <|
        (fields.findSome? Variable.misfit?).or <|
          (methods.findSome? Method.misfit?).or <|
            (parents.findSome? TypeRef.misfit?).or <| Declaration.firstMisfit? nested

/-- The first misfit of a list of declarations. -/
def Declaration.firstMisfit? : List Declaration → Option Misfit
  | [] => none
  | m :: ms => m.misfit?.or (Declaration.firstMisfit? ms)

end

/-- The first misfit of a namespace: its own, then those of its modifiers and
declarations. -/
def Namespace.misfit? (m : Namespace) : Option Misfit :=
  (Wire.MessageType.ns.misfit? m.stray).or <|
    (m.modifiers.findSome? Modifier.misfit?).or <|
      m.declarations.findSome? Declaration.misfit?

/-- The first misfit of a source file: its own, then those of its namespaces. -/
def Root.misfit? (m : Root) : Option Misfit :=
  (Wire.MessageType.root.misfit? m.stray).or <| m.namespaces.findSome? Namespace.misfit?

end Message

end Arbor
