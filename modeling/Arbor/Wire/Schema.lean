/-!
# The message schema

A serialized source file is a message of type `root`.  Messages are made of numbered
fields; a field holds a text, a kind tag, a flag or another message.  This module lists
the fields of each of the nine message types, in the order of their numbers.

## Main declarations

* `MessageType`, with `MessageType.fields` and `MessageType.field?`.
* `WireType`: how a value is laid out in bytes.
-/

namespace Arbor.Wire

/-- How a value is laid out in bytes. -/
inductive WireType where
  | varint
  | fixed64
  | delimited
  | groupStart
  | groupEnd
  | fixed32
  deriving DecidableEq, Inhabited

namespace WireType

/-- The number of a wire type inside a tag. -/
def code : WireType → Nat
  | varint => 0
  | fixed64 => 1
  | delimited => 2
  | groupStart => 3
  | groupEnd => 4
  | fixed32 => 5

/-- The wire type with the given number. -/
def ofCode? : Nat → Option WireType
  | 0 => some varint
  | 1 => some fixed64
  | 2 => some delimited
  | 3 => some groupStart
  | 4 => some groupEnd
  | 5 => some fixed32
  | _ => none

/-- A wire type is found by its code. -/
@[simp] theorem ofCode?_code (w : WireType) : ofCode? w.code = some w := by
  cases w <;> rfl

end WireType

/-- The types of message, one for each type of node. -/
inductive MessageType where
  | root
  | ns
  | decl
  | method
  | var
  | stmt
  | expr
  | mod
  | typeRef
  deriving DecidableEq, Inhabited

/-- What a field holds. -/
inductive FieldType where
  | text
  | kind
  | flag
  | message (type : MessageType)
  deriving DecidableEq, Inhabited

/-- The layout of what a field holds. -/
def FieldType.wireType : FieldType → WireType
  | text => .delimited
  | kind => .varint
  | flag => .varint
  | message _ => .delimited

/-- A field of a message type. -/
structure Field where
  number : Nat
  name : String
  type : FieldType
  deriving DecidableEq, Inhabited

namespace MessageType

/-- The name of a message type. -/
def name : MessageType → String
  | root => "Root"
  | ns => "Namespace"
  | decl => "Declaration"
  | method => "Method"
  | var => "Variable"
  | stmt => "Statement"
  | expr => "Expression"
  | mod => "Modifier"
  | typeRef => "Type"

/-- The fields of a message type, by number. -/
def fields : MessageType → List Field
  | root => [⟨1, "imports", .text⟩, ⟨2, "namespaces", .message ns⟩]
  | ns => [⟨1, "name", .text⟩, ⟨2, "modifiers", .message mod⟩,
      ⟨3, "declarations", .message decl⟩]
  | decl => [⟨1, "name", .text⟩, ⟨2, "kind", .kind⟩, ⟨3, "modifiers", .message mod⟩,
      ⟨4, "fields", .message var⟩, ⟨5, "methods", .message method⟩,
      ⟨6, "parents", .message typeRef⟩, ⟨7, "nested_declarations", .message decl⟩]
  | method => [⟨1, "name", .text⟩, ⟨2, "return_type", .message typeRef⟩,
      ⟨3, "modifiers", .message mod⟩, ⟨4, "arguments", .message var⟩,
      ⟨5, "statements", .message stmt⟩, ⟨6, "body_content", .message expr⟩]
  | var => [⟨1, "name", .text⟩, ⟨2, "declared_type", .message typeRef⟩,
      ⟨3, "initializer", .message expr⟩, ⟨4, "modifiers", .message mod⟩]
  | stmt => [⟨1, "kind", .kind⟩, ⟨2, "expressions", .message expr⟩,
      ⟨3, "condition", .message expr⟩, ⟨4, "statements", .message stmt⟩,
      ⟨5, "initializations", .message expr⟩, ⟨6, "updates", .message expr⟩]
  | expr => [⟨1, "kind", .kind⟩, ⟨2, "literal", .text⟩, ⟨3, "method", .text⟩,
      ⟨4, "variable", .text⟩, ⟨5, "method_arguments", .message expr⟩,
      ⟨6, "variable_declarations", .message var⟩, ⟨7, "is_postfix", .flag⟩,
      ⟨8, "new_type", .message typeRef⟩, ⟨9, "expressions", .message expr⟩]
  | mod => [⟨1, "name", .text⟩, ⟨2, "kind", .kind⟩, ⟨3, "members_and_values", .text⟩,
      ⟨4, "visibility", .kind⟩, ⟨5, "other", .text⟩]
  | typeRef => [⟨1, "name", .text⟩, ⟨2, "kind", .kind⟩]

/-- The field with the given number. -/
def field? (t : MessageType) (number : Nat) : Option Field :=
  t.fields.find? (·.number == number)

end MessageType

end Arbor.Wire
