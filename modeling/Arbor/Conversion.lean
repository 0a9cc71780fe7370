import Arbor.Limits
import Arbor.Message.Misfit
import Arbor.Node

/-!
# From messages to trees

Rebuilding a tree from a message turns tags into kinds, fills in what the message leaves
out, and drops what the nesting limits cut off.  Arguments are kept on method calls only.
Rebuilding stops at the first tag that stands for no kind.

A `Conversion` is the outcome of such a step.  It lists the notices written on the way,
which are there also when the step fails.

## Main declarations

* `Conversion`: notices, and a value or an error.
* `Message.Root.rebuild`: the tree of a source file.
* `Root.ofBytes`: from serialized data to the tree.
-/

namespace Arbor

/-- Why serialized data gives no tree. -/
inductive ConvertError where
  /-- The bytes are no message. -/
  | malformed (fault : Wire.Fault)
  /-- A field occurs with the wrong wire type. -/
  | wrongWireType (misfit : Misfit)
  /-- A tag stands for no kind; the noun says what it is the kind of. -/
  | unknownKind (noun : String) (tag : Int)
  deriving DecidableEq, Inhabited

/-- The text of an error. -/
def ConvertError.message : ConvertError → String
  | malformed fault => s!"malformed AST message: {fault.message}"
  | wrongWireType misfit => s!"field `{misfit.message}.{misfit.field}` has the wrong wire type"
  | unknownKind noun tag => s!"unknown {noun} kind tag `{tag}`"

/-- What is noted while a tree is rebuilt. -/
inductive Notice where
  /-- Declarations nested in the named declaration were dropped. -/
  | droppedDeclarations (count : Nat) (name : String) (depth : Nat)
  /-- Statements nested in a statement of the given kind were dropped. -/
  | droppedStatements (count : Nat) (kind : StatementKind) (depth : Nat)
  /-- The tree is complete. -/
  | rebuilt (imports namespaces : Nat)
  deriving DecidableEq, Inhabited

/-- The text of a notice. -/
def Notice.message : Notice → String
  | droppedDeclarations count name depth =>
    s!"[AST Convert] Dropped {count} declarations nested below `{name}` (depth {depth})"
  | droppedStatements count kind depth =>
    s!"[AST Convert] Dropped {count} statements nested below a {Kind.name kind} statement " ++
      s!"(depth {depth})"
  | rebuilt imports namespaces =>
    s!"[AST Convert] Rebuilt root with {imports} imports, {namespaces} namespaces"

/-- A value or an error, with the notices written before it was reached. -/
structure Conversion (α : Type) where
  notices : List Notice
  result : Except ConvertError α

namespace Conversion

variable {α β : Type}

/-- Go on with the value, if there is one. -/
def andThen (x : Conversion α) (f : α → Conversion β) : Conversion β :=
  match x.result with
  | .error e => ⟨x.notices, .error e⟩
  | .ok a => ⟨x.notices ++ (f a).notices, (f a).result⟩

instance : Monad Conversion where
  pure a := ⟨[], .ok a⟩
  bind := andThen

/-- Give up. -/
def fail (e : ConvertError) : Conversion α :=
  ⟨[], .error e⟩

/-- Write a notice. -/
def note (n : Notice) : Conversion Unit :=
  ⟨[n], .ok ()⟩

/-- Convert the members of a list in order, up to the first that fails. -/
def each (f : α → Conversion β) : List α → Conversion (List β)
  | [] => pure []
  | a :: as => do
    let b ← f a
    let bs ← each f as
    pure (b :: bs)

/-- The kind that a tag stands for. -/
def kindOfTag {κ : Type} [Kind κ] (noun : String) (tag : Int) : Conversion κ :=
  match Kind.ofTag? tag with
  | some k => pure k
  | none => fail (.unknownKind noun tag)

@[simp] theorem pure_def (a : α) : (pure a : Conversion α) = ⟨[], .ok a⟩ := rfl

/-- A `do` block runs one conversion after the other. -/
theorem bind_def (x : Conversion α) (f : α → Conversion β) : (x >>= f) = x.andThen f := rfl

/-- After a success the notices are put together and the next conversion decides. -/
@[simp] theorem mk_ok_bind (ns : List Notice) (a : α) (f : α → Conversion β) :
    (⟨ns, .ok a⟩ >>= f : Conversion β) = ⟨ns ++ (f a).notices, (f a).result⟩ := rfl

/-- After a failure nothing else is run. -/
@[simp] theorem mk_error_bind (ns : List Notice) (e : ConvertError) (f : α → Conversion β) :
    (⟨ns, .error e⟩ >>= f : Conversion β) = ⟨ns, .error e⟩ := rfl

end Conversion

namespace Message

open Conversion (each kindOfTag note)

/-- The type a message mentions. -/
def TypeRef.rebuild (m : TypeRef) : Conversion Arbor.TypeRef := do
  let kind ← kindOfTag "type" m.kind
  pure { name := m.name, kind }

/-- The modifier of a message. -/
def Modifier.rebuild (m : Modifier) : Conversion Arbor.Modifier := do
  let kind ← kindOfTag "modifier" m.kind
  let visibility ← kindOfTag "visibility" m.visibility
  pure { name := m.name, kind, membersAndValues := m.membersAndValues, visibility,
         other := m.other }

mutual

/-- The expression of a message.  Only method calls keep their arguments. -/
def Expression.rebuild : Expression → Conversion Arbor.Expression
  | ⟨tag, literal, methodName, variableName, arguments, declared, isPostfix, newType, operands,
      _⟩ => do
    let kind ← kindOfTag "expression" tag
    let newType ← (newType.getD {}).rebuild
    let arguments ←
      if kind = .methodCall then Expression.rebuildAll arguments else pure []
    let declared ← Variable.rebuildAll declared
    let operands ← Expression.rebuildAll operands
    pure { kind, literal, methodName, variableName, arguments, declared, isPostfix, newType,
           operands }

/-- The expressions of a list of messages. -/
def Expression.rebuildAll : List Expression → Conversion (List Arbor.Expression)
  | [] => pure []
  | m :: ms => do
    let e ← m.rebuild
    let es ← Expression.rebuildAll ms
    pure (e :: es)

/-- The variable of a message.  An absent initializer is the placeholder. -/
def Variable.rebuild : Variable → Conversion Arbor.Variable
  | ⟨name, declaredType, initializer, modifiers, _⟩ => do
    let modifiers ← each Modifier.rebuild modifiers
    let type ← (declaredType.getD {}).rebuild
    let initializer ←
      match initializer with
      | none => pure .placeholder
      | some e => e.rebuild
    pure { name, type, initializer, modifiers }

/-- The variables of a list of messages. -/
def Variable.rebuildAll : List Variable → Conversion (List Arbor.Variable)
  | [] => pure []
  | m :: ms => do
    let v ← m.rebuild
    let vs ← Variable.rebuildAll ms
    pure (v :: vs)

end

/-- The expression of a message that may be absent. -/
def Expression.rebuild? : Option Expression → Conversion Arbor.Expression
  | none => pure .placeholder
  | some m => m.rebuild

mutual

/-- The statement of a message at the given depth. -/
def Statement.rebuild (limits : Limits) (depth : Nat) : Statement → Conversion Arbor.Statement
  | ⟨tag, expressions, condition, statements, initializations, updates, _⟩ => do
    let kind ← kindOfTag "statement" tag
    let expressions ← each Expression.rebuild expressions
    let initializations ← each Expression.rebuild initializations
    let updates ← each Expression.rebuild updates
    let condition ← Expression.rebuild? condition
    let statements ←
      if Limits.allows limits.statements depth then
        Statement.rebuildAll limits (depth + 1) statements
      else if statements.isEmpty then pure []
      else do
        note (.droppedStatements statements.length kind depth)
        pure []
    pure { kind, expressions, condition, statements, initializations, updates }

/-- The statements of a list of messages at the given depth. -/
def Statement.rebuildAll (limits : Limits) (depth : Nat) :
    List Statement → Conversion (List Arbor.Statement)
  | [] => pure []
  | m :: ms => do
    let s ← m.rebuild limits depth
    let ss ← Statement.rebuildAll limits depth ms
    pure (s :: ss)

end

/-- The method of a message.  The statements of its body are at depth zero. -/
def Method.rebuild (limits : Limits) (m : Method) : Conversion Arbor.Method := do
  let returnType ← (m.returnType.getD {}).rebuild
  let modifiers ← each Modifier.rebuild m.modifiers
  let arguments ← each Variable.rebuild m.arguments
  let statements ← each (Statement.rebuild limits 0) m.statements
  let content ← each Expression.rebuild m.content
  pure { name := m.name, returnType, modifiers, arguments, statements, content }

mutual

/-- The declaration of a message at the given depth. -/
def Declaration.rebuild (limits : Limits) (depth : Nat) :
    Declaration → Conversion Arbor.Declaration
  | ⟨name, tag, modifiers, fields, methods, parents, nested, _⟩ => do
    let kind ← kindOfTag "declaration" tag
    let modifiers ← each Modifier.rebuild modifiers
    let parents ← each TypeRef.rebuild parents
    let fields ← each Variable.rebuild fields
    let methods ← each (Method.rebuild limits) methods
    let nested ←
      if Limits.allows limits.declarations depth then
        Declaration.rebuildAll limits (depth + 1) nested
      else if nested.isEmpty then pure []
      else do
        note (.droppedDeclarations nested.length name depth)
        pure []
    pure { name, kind, modifiers, fields, methods, parents, nested }

/-- The declarations of a list of messages at the given depth. -/
def Declaration.rebuildAll (limits : Limits) (depth : Nat) :
    List Declaration → Conversion (List Arbor.Declaration)
  | [] => pure []
  | m :: ms => do
    let d ← m.rebuild limits depth
    let ds ← Declaration.rebuildAll limits depth ms
    pure (d :: ds)

end

/-- The namespace of a message.  Its declarations are at depth zero. -/
def Namespace.rebuild (limits : Limits) (m : Namespace) : Conversion Arbor.Namespace := do
  let modifiers ← each Modifier.rebuild m.modifiers
  let declarations ← each (Declaration.rebuild limits 0) m.declarations
  pure { name := m.name, modifiers, declarations }

/-- The tree of a message whose fields all have their wire types. -/
def Root.rebuild (limits : Limits) (m : Root) : Conversion Arbor.Root := do
  let namespaces ← each (Namespace.rebuild limits) m.namespaces
  note (.rebuilt m.imports.length namespaces.length)
  pure { imports := m.imports, namespaces }

/-- The tree of a message. -/
def Root.convert (limits : Limits) (m : Root) : Conversion Arbor.Root :=
  match m.misfit? with
  | some misfit => .fail (.wrongWireType misfit)
  | none => m.rebuild limits

/-! ### Lists of messages -/

/-- A list of expressions is rebuilt one after the other. -/
@[simp] theorem Expression.rebuildAll_eq_each (ms : List Expression) :
    Expression.rebuildAll ms = each Expression.rebuild ms := by
  induction ms with
  | nil => rw [Expression.rebuildAll, each]
  | cons m ms ih => rw [Expression.rebuildAll, each, ih]

/-- A list of variables is rebuilt one after the other. -/
@[simp] theorem Variable.rebuildAll_eq_each (ms : List Variable) :
    Variable.rebuildAll ms = each Variable.rebuild ms := by
  induction ms with
  | nil => rw [Variable.rebuildAll, each]
  | cons m ms ih => rw [Variable.rebuildAll, each, ih]

/-- A list of statements is rebuilt one after the other, all at one depth. -/
@[simp] theorem Statement.rebuildAll_eq_each (limits : Limits) (depth : Nat)
    (ms : List Statement) :
    Statement.rebuildAll limits depth ms = each (Statement.rebuild limits depth) ms := by
  induction ms with
  | nil => rw [Statement.rebuildAll, each]
  | cons m ms ih => rw [Statement.rebuildAll, each, ih]

/-- A list of declarations is rebuilt one after the other, all at one depth. -/
@[simp] theorem Declaration.rebuildAll_eq_each (limits : Limits) (depth : Nat)
    (ms : List Declaration) :
    Declaration.rebuildAll limits depth ms = each (Declaration.rebuild limits depth) ms := by
  induction ms with
  | nil => rw [Declaration.rebuildAll, each]
  | cons m ms ih => rw [Declaration.rebuildAll, each, ih]

end Message

/-- The tree of serialized data: the bytes are decoded, then the fields are checked, then
the tree is rebuilt. -/
def Root.ofBytes (limits : Limits) (bytes : Wire.Bytes) : Conversion Root :=
  match Wire.decodeRoot bytes with
  | .error fault => .fail (.malformed fault)
  | .ok records => (Message.Root.ofRecords records).convert limits

end Arbor
