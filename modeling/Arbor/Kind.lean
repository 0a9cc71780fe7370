/-!
# Kinds

Every node of a syntax tree carries a kind out of a small enumeration.  A kind has a
name, under which it is written in outlines and exports, and a tag, the number that
stands for it in a serialized message.  `Kind.ofName?` and `Kind.ofTag?` read the two
back.

## Main declarations

* `Kind`: an enumeration with its names and tags, both of them unambiguous.
* `ExpressionKind`, `StatementKind`, `DeclarationKind`, `ModifierKind`, `Visibility`.
* `UnknownName`: the failure to read a name.
-/

namespace Arbor

/-- An enumeration whose members have a name and a tag each, no two of them alike. -/
class Kind (κ : Type) where
  /-- What a member of the enumeration is called in a message. -/
  noun : String
  /-- Every member once, in the order of declaration. -/
  all : List κ
  /-- The name a member is written under. -/
  name : κ → String
  /-- The number that stands for a member in a serialized message. -/
  tag : κ → Int
  find_name : ∀ k : κ, (all.find? fun j => name j == name k) = some k
  find_tag : ∀ k : κ, (all.find? fun j => tag j == tag k) = some k

namespace Kind

variable {κ : Type} [Kind κ]

/-- The member with the given name. -/
def ofName? (s : String) : Option κ :=
  all.find? fun k => name k == s

/-- The member with the given tag. -/
def ofTag? (n : Int) : Option κ :=
  all.find? fun k => tag k == n

/-- The place of a member in the order of declaration. -/
def index [DecidableEq κ] (k : κ) : Nat :=
  all.idxOf k

/-- A kind is found by its name. -/
@[simp] theorem ofName?_name (k : κ) : ofName? (name k) = some k :=
  find_name k

/-- A kind is found by its tag. -/
@[simp] theorem ofTag?_tag (k : κ) : ofTag? (tag k) = some k :=
  find_tag k

/-- The kind that is found by a name has that name. -/
theorem name_of_ofName? {s : String} {k : κ} (h : ofName? s = some k) : name k = s := by
  simpa using List.find?_some h

/-- The kind that is found by a tag has that tag. -/
theorem tag_of_ofTag? {n : Int} {k : κ} (h : ofTag? n = some k) : tag k = n := by
  simpa using List.find?_some h

/-- A kind is found by its tag and by no other number. -/
theorem ofTag?_eq_some_iff {n : Int} {k : κ} : ofTag? n = some k ↔ tag k = n :=
  ⟨tag_of_ofTag?, fun h => h ▸ ofTag?_tag k⟩

/-- The list of all kinds is complete. -/
theorem mem_all (k : κ) : k ∈ (all : List κ) :=
  List.mem_of_find?_eq_some (find_tag k)

/-- No two kinds have one name. -/
theorem name_injective {j k : κ} (h : name j = name k) : j = k := by
  have hj := ofName?_name j
  rw [h, ofName?_name] at hj
  exact (Option.some.inj hj).symm

/-- No two kinds have one tag. -/
theorem tag_injective {j k : κ} (h : tag j = tag k) : j = k := by
  have hj := ofTag?_tag j
  rw [h, ofTag?_tag] at hj
  exact (Option.some.inj hj).symm

end Kind

/-- A name that no member of an enumeration has. -/
structure UnknownName where
  noun : String
  name : String
  deriving DecidableEq, Inhabited

/-- The text of the failure. -/
def UnknownName.message (e : UnknownName) : String :=
  s!"unknown {e.noun} kind `{e.name}`"

/-- Read a name, or say which enumeration does not have it. -/
def Kind.parse {κ : Type} [Kind κ] (s : String) : Except UnknownName κ :=
  match ofName? s with
  | some k => .ok k
  | none => .error { noun := noun κ, name := s }

/-! ### Expressions -/

/-- What an expression does. -/
inductive ExpressionKind where
  | assign
  | cast
  | conditional
  | literal
  | fieldAccess
  | returnValue
  | new
  | methodCall
  | other
  | typeCompare
  | variableDeclaration
  deriving DecidableEq, Inhabited

namespace ExpressionKind

/-- The name an expression kind is written under. -/
def name : ExpressionKind → String
  | assign => "ASSIGN"
  | cast => "CAST"
  | conditional => "CONDITIONAL"
  | literal => "LITERAL"
  | fieldAccess => "FIELD_ACCESS"
  | returnValue => "RETURN_VALUE"
  | new => "NEW"
  | methodCall => "METHODCALL"
  | other => "OTHER"
  | typeCompare => "TYPECOMPARE"
  | variableDeclaration => "VARIABLE_DECLARATION"

/-- The tag of an expression kind. -/
def tag : ExpressionKind → Int
  | other => 0
  | assign => 1
  | cast => 2
  | conditional => 3
  | literal => 4
  | fieldAccess => 5
  | returnValue => 6
  | new => 7
  | methodCall => 8
  | typeCompare => 9
  | variableDeclaration => 10

instance : Kind ExpressionKind where
  noun := "expression"
  all := [assign, cast, conditional, literal, fieldAccess, returnValue, new, methodCall,
    other, typeCompare, variableDeclaration]
  name := name
  tag := tag
  find_name k := by cases k <;> decide
  find_tag k := by cases k <;> decide

end ExpressionKind

/-! ### Statements -/

/-- What a statement does. -/
inductive StatementKind where
  | other
  | block
  | expression
  | ifBranch
  | whileLoop
  | doLoop
  | forLoop
  | foreachLoop
  | switchBlock
  | caseLabel
  | tryBlock
  | catchClause
  | throwing
  | returning
  | breaking
  | continuing
  | label
  | synchronized
  | assertion
  | empty
  | typeDeclaration
  deriving DecidableEq, Inhabited

namespace StatementKind

/-- The name a statement kind is written under. -/
def name : StatementKind → String
  | other => "OTHER"
  | block => "BLOCK"
  | expression => "EXPRESSION"
  | ifBranch => "IF"
  | whileLoop => "WHILE"
  | doLoop => "DO"
  | forLoop => "FOR"
  | foreachLoop => "FOREACH"
  | switchBlock => "SWITCH"
  | caseLabel => "CASE"
  | tryBlock => "TRY"
  | catchClause => "CATCH"
  | throwing => "THROW"
  | returning => "RETURN"
  | breaking => "BREAK"
  | continuing => "CONTINUE"
  | label => "LABEL"
  | synchronized => "SYNCHRONIZED"
  | assertion => "ASSERT"
  | empty => "EMPTY"
  | typeDeclaration => "TYPE_DECLARATION"

/-- The tag of a statement kind. -/
def tag : StatementKind → Int
  | other => 0
  | block => 1
  | expression => 2
  | ifBranch => 3
  | whileLoop => 4
  | doLoop => 5
  | forLoop => 6
  | foreachLoop => 7
  | switchBlock => 8
  | caseLabel => 9
  | tryBlock => 10
  | catchClause => 11
  | throwing => 12
  | returning => 13
  | breaking => 14
  | continuing => 15
  | label => 16
  | synchronized => 17
  | assertion => 18
  | empty => 19
  | typeDeclaration => 20

instance : Kind StatementKind where
  noun := "statement"
  all := [other, block, expression, ifBranch, whileLoop, doLoop, forLoop, foreachLoop,
    switchBlock, caseLabel, tryBlock, catchClause, throwing, returning, breaking, continuing,
    label, synchronized, assertion, empty, typeDeclaration]
  name := name
  tag := tag
  find_name k := by cases k <;> decide
  find_tag k := by cases k <;> decide

end StatementKind

/-! ### Declarations and types -/

/-- What a declaration declares, and what a type mention refers to. -/
inductive DeclarationKind where
  | other
  | classType
  | interfaceType
  | enumType
  | annotationType
  | primitiveType
  | genericType
  | arrayType
  | structType
  deriving DecidableEq, Inhabited

namespace DeclarationKind

/-- The name a declaration kind is written under. -/
def name : DeclarationKind → String
  | other => "OTHER"
  | classType => "CLASS"
  | interfaceType => "INTERFACE"
  | enumType => "ENUM"
  | annotationType => "ANNOTATION"
  | primitiveType => "PRIMITIVE"
  | genericType => "GENERIC"
  | arrayType => "ARRAY"
  | structType => "STRUCT"

/-- The tag of a declaration kind. -/
def tag : DeclarationKind → Int
  | other => 0
  | classType => 1
  | interfaceType => 2
  | enumType => 3
  | annotationType => 4
  | primitiveType => 5
  | genericType => 6
  | arrayType => 7
  | structType => 8

instance : Kind DeclarationKind where
  noun := "declaration"
  all := [other, classType, interfaceType, enumType, annotationType, primitiveType,
    genericType, arrayType, structType]
  name := name
  tag := tag
  find_name k := by cases k <;> decide
  find_tag k := by cases k <;> decide

end DeclarationKind

/-! ### Modifiers -/

/-- What a modifier says about the thing it stands on. -/
inductive ModifierKind where
  | other
  | annotated
  | access
  | final
  | static
  | abstract
  | synchronized
  deriving DecidableEq, Inhabited

namespace ModifierKind

/-- The name a modifier kind is written under. -/
def name : ModifierKind → String
  | other => "OTHER"
  | annotated => "ANNOTATION"
  | access => "ACCESS"
  | final => "FINAL"
  | static => "STATIC"
  | abstract => "ABSTRACT"
  | synchronized => "SYNCHRONIZED"

/-- The tag of a modifier kind. -/
def tag : ModifierKind → Int
  | other => 0
  | annotated => 1
  | access => 2
  | final => 3
  | static => 4
  | abstract => 5
  | synchronized => 6

instance : Kind ModifierKind where
  noun := "modifier"
  all := [other, annotated, access, final, static, abstract, synchronized]
  name := name
  tag := tag
  find_name k := by cases k <;> decide
  find_tag k := by cases k <;> decide

end ModifierKind

/-- From where the thing under an access modifier can be seen. -/
inductive Visibility where
  | unstated
  | everywhere
  | ownerOnly
  | heirs
  | withinNamespace
  deriving DecidableEq, Inhabited

namespace Visibility

/-- The name a visibility is written under. -/
def name : Visibility → String
  | unstated => "NONE"
  | everywhere => "PUBLIC"
  | ownerOnly => "PRIVATE"
  | heirs => "PROTECTED"
  | withinNamespace => "NAMESPACE"

/-- The tag of a visibility. -/
def tag : Visibility → Int
  | unstated => 0
  | everywhere => 1
  | ownerOnly => 2
  | heirs => 3
  | withinNamespace => 4

instance : Kind Visibility where
  noun := "visibility"
  all := [unstated, everywhere, ownerOnly, heirs, withinNamespace]
  name := name
  tag := tag
  find_name k := by cases k <;> decide
  find_tag k := by cases k <;> decide

end Visibility

end Arbor
