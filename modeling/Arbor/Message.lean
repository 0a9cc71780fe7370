import Arbor.Wire.Record

/-!
# Messages

A message is the decoded form of a serialized node, before its kinds are known to be
valid.  Kinds are still tags, single submessages may be absent, and each message
remembers the numbers of the records that fit none of its fields.

A message is put together from its records one after the other: a record of a repeated
field is added at the end of the list, a record of any other field replaces what an
earlier record has put there.  Submessages are replaced as a whole, never merged.

## Main declarations

* `Message.Root`, `Message.Namespace`, ...: the nine types of message.
* `Message.Root.ofRecords`: the message with the given records.
-/

namespace Arbor.Message

open Wire (Record)

/-- The message of a type mention. -/
structure TypeRef where
  name : String := ""
  kind : Int := 0
  stray : List Nat := []
  deriving DecidableEq, Inhabited

/-- The message of a modifier. -/
structure Modifier where
  name : String := ""
  kind : Int := 0
  membersAndValues : List String := []
  visibility : Int := 0
  other : String := ""
  stray : List Nat := []
  deriving DecidableEq, Inhabited

mutual

/-- The message of an expression. -/
structure Expression where
  kind : Int := 0
  literal : String := ""
  methodName : String := ""
  variableName : String := ""
  arguments : List Expression := []
  declared : List Variable := []
  isPostfix : Bool := false
  newType : Option TypeRef := none
  operands : List Expression := []
  stray : List Nat := []

/-- The message of a variable. -/
structure Variable where
  name : String := ""
  declaredType : Option TypeRef := none
  initializer : Option Expression := none
  modifiers : List Modifier := []
  stray : List Nat := []

end

instance : Inhabited Expression := ⟨{}⟩

instance : Inhabited Variable := ⟨{}⟩

/-- The message of a statement. -/
structure Statement where
  kind : Int := 0
  expressions : List Expression := []
  condition : Option Expression := none
  statements : List Statement := []
  initializations : List Expression := []
  updates : List Expression := []
  stray : List Nat := []
  deriving Inhabited

/-- The message of a method. -/
structure Method where
  name : String := ""
  returnType : Option TypeRef := none
  modifiers : List Modifier := []
  arguments : List Variable := []
  statements : List Statement := []
  content : List Expression := []
  stray : List Nat := []
  deriving Inhabited

/-- The message of a declaration. -/
structure Declaration where
  name : String := ""
  kind : Int := 0
  modifiers : List Modifier := []
  fields : List Variable := []
  methods : List Method := []
  parents : List TypeRef := []
  nested : List Declaration := []
  stray : List Nat := []
  deriving Inhabited

/-- The message of a namespace. -/
structure Namespace where
  name : String := ""
  modifiers : List Modifier := []
  declarations : List Declaration := []
  stray : List Nat := []
  deriving Inhabited

/-- The message of a source file. -/
structure Root where
  imports : List String := []
  namespaces : List Namespace := []
  stray : List Nat := []
  deriving Inhabited

/-! ### Messages from records -/

namespace TypeRef

/-- Take in one record. -/
def put (m : TypeRef) : Record → TypeRef
  | .text 1 s => { m with name := s }
  | .kind 2 k => { m with kind := k }
  | .stray n => { m with stray := m.stray ++ [n] }
  | _ => m

/-- The type mention with the given records. -/
def ofRecords (rs : List Record) : TypeRef :=
  rs.foldl put {}

end TypeRef

namespace Modifier

/-- Take in one record. -/
def put (m : Modifier) : Record → Modifier
  | .text 1 s => { m with name := s }
  | .kind 2 k => { m with kind := k }
  | .text 3 s => { m with membersAndValues := m.membersAndValues ++ [s] }
  | .kind 4 k => { m with visibility := k }
  | .text 5 s => { m with other := s }
  | .stray n => { m with stray := m.stray ++ [n] }
  | _ => m

/-- The modifier with the given records. -/
def ofRecords (rs : List Record) : Modifier :=
  rs.foldl put {}

end Modifier

mutual

/-- Take in one record. -/
def Expression.put (m : Expression) : Record → Expression
  | .kind 1 k => { m with kind := k }
  | .text 2 s => { m with literal := s }
  | .text 3 s => { m with methodName := s }
  | .text 4 s => { m with variableName := s }
  | .message 5 rs => { m with arguments := m.arguments ++ [Expression.putAll {} rs] }
  | .message 6 rs => { m with declared := m.declared ++ [Variable.putAll {} rs] }
  | .flag 7 b => { m with isPostfix := b }
  | .message 8 rs => { m with newType := some (.ofRecords rs) }
  | .message 9 rs => { m with operands := m.operands ++ [Expression.putAll {} rs] }
  | .stray n => { m with stray := m.stray ++ [n] }
  | _ => m

/-- Take in records one after the other. -/
def Expression.putAll (m : Expression) : List Record → Expression
  | [] => m
  | r :: rs => Expression.putAll (m.put r) rs

/-- Take in one record. -/
def Variable.put (m : Variable) : Record → Variable
  | .text 1 s => { m with name := s }
  | .message 2 rs => { m with declaredType := some (.ofRecords rs) }
  | .message 3 rs => { m with initializer := some (Expression.putAll {} rs) }
  | .message 4 rs => { m with modifiers := m.modifiers ++ [.ofRecords rs] }
  | .stray n => { m with stray := m.stray ++ [n] }
  | _ => m

/-- Take in records one after the other. -/
def Variable.putAll (m : Variable) : List Record → Variable
  | [] => m
  | r :: rs => Variable.putAll (m.put r) rs

end

/-- The expression with the given records. -/
def Expression.ofRecords (rs : List Record) : Expression :=
  Expression.putAll {} rs

/-- The variable with the given records. -/
def Variable.ofRecords (rs : List Record) : Variable :=
  Variable.putAll {} rs

mutual

/-- Take in one record. -/
def Statement.put (m : Statement) : Record → Statement
  | .kind 1 k => { m with kind := k }
  | .message 2 rs => { m with expressions := m.expressions ++ [.ofRecords rs] }
  | .message 3 rs => { m with condition := some (.ofRecords rs) }
  | .message 4 rs => { m with statements := m.statements ++ [Statement.putAll {} rs] }
  | .message 5 rs => { m with initializations := m.initializations ++ [.ofRecords rs] }
  | .message 6 rs => { m with updates := m.updates ++ [.ofRecords rs] }
  | .stray n => { m with stray := m.stray ++ [n] }
  | _ => m

/-- Take in records one after the other. -/
def Statement.putAll (m : Statement) : List Record → Statement
  | [] => m
  | r :: rs => Statement.putAll (m.put r) rs

end

/-- The statement with the given records. -/
def Statement.ofRecords (rs : List Record) : Statement :=
  Statement.putAll {} rs

namespace Method

/-- Take in one record. -/
def put (m : Method) : Record → Method
  | .text 1 s => { m with name := s }
  | .message 2 rs => { m with returnType := some (.ofRecords rs) }
  | .message 3 rs => { m with modifiers := m.modifiers ++ [.ofRecords rs] }
  | .message 4 rs => { m with arguments := m.arguments ++ [.ofRecords rs] }
  | .message 5 rs => { m with statements := m.statements ++ [.ofRecords rs] }
  | .message 6 rs => { m with content := m.content ++ [.ofRecords rs] }
  | .stray n => { m with stray := m.stray ++ [n] }
  | _ => m

/-- The method with the given records. -/
def ofRecords (rs : List Record) : Method :=
  rs.foldl put {}

end Method

mutual

/-- Take in one record. -/
def Declaration.put (m : Declaration) : Record → Declaration
  | .text 1 s => { m with name := s }
  | .kind 2 k => { m with kind := k }
  | .message 3 rs => { m with modifiers := m.modifiers ++ [.ofRecords rs] }
  | .message 4 rs => { m with fields := m.fields ++ [.ofRecords rs] }
  | .message 5 rs => { m with methods := m.methods ++ [.ofRecords rs] }
  | .message 6 rs => { m with parents := m.parents ++ [.ofRecords rs] }
  | .message 7 rs => { m with nested := m.nested ++ [Declaration.putAll {} rs] }
  | .stray n => { m with stray := m.stray ++ [n] }
  | _ => m

/-- Take in records one after the other. -/
def Declaration.putAll (m : Declaration) : List Record → Declaration
  | [] => m
  | r :: rs => Declaration.putAll (m.put r) rs

end

/-- The declaration with the given records. -/
def Declaration.ofRecords (rs : List Record) : Declaration :=
  Declaration.putAll {} rs

namespace Namespace

/-- Take in one record. -/
def put (m : Namespace) : Record → Namespace
  | .text 1 s => { m with name := s }
  | .message 2 rs => { m with modifiers := m.modifiers ++ [.ofRecords rs] }
  | .message 3 rs => { m with declarations := m.declarations ++ [.ofRecords rs] }
  | .stray n => { m with stray := m.stray ++ [n] }
  | _ => m

/-- The namespace with the given records. -/
def ofRecords (rs : List Record) : Namespace :=
  rs.foldl put {}

end Namespace

namespace Root

/-- Take in one record. -/
def put (m : Root) : Record → Root
  | .text 1 s => { m with imports := m.imports ++ [s] }
  | .message 2 rs => { m with namespaces := m.namespaces ++ [.ofRecords rs] }
  | .stray n => { m with stray := m.stray ++ [n] }
  | _ => m

/-- The source file with the given records. -/
def ofRecords (rs : List Record) : Root :=
  rs.foldl put {}

end Root

end Arbor.Message
