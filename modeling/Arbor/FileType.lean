import Arbor.Path

/-!
# Types of file

What a file holds, as far as the extension of its name tells.  Upper and lower case make
no difference in an extension.
-/

namespace Arbor

/-- What a file holds. -/
inductive FileType where
  /-- A serialized syntax tree. -/
  | binary
  | java
  | go
  | text
  | xml
  | json
  | other
  deriving DecidableEq, Inhabited

namespace FileType

/-- Every type of file. -/
def all : List FileType :=
  [binary, java, go, text, xml, json, other]

/-- The name of a type of file. -/
def name : FileType → String
  | binary => "binary"
  | java => "java"
  | go => "go"
  | text => "text"
  | xml => "xml"
  | json => "json"
  | other => "other"

/-- The extensions of the files of a type. -/
def extensions : FileType → List String
  | binary => ["bin", "binary"]
  | java => ["java"]
  | go => ["go"]
  | text => ["txt", "text"]
  | xml => ["xml"]
  | json => ["json"]
  | other => []

/-- An extension in lower case.  All names and extensions above are made of ASCII letters,
and none of them has a letter that is the lower case of a character outside ASCII, so the
case of ASCII letters is the only one that matters. -/
def lower (s : String) : String :=
  String.ofList (s.toList.map Char.toLower)

/-- The type of the files with the given extension. -/
def ofExtension? (extension : String) : Option FileType :=
  all.find? (·.extensions.contains (lower extension))

/-- The type of the file at the given path. -/
def ofPath? (path : String) : Option FileType :=
  (Path.extension? path).bind ofExtension?

/-- Whether the extension of a path is the name of a type of file. -/
def isSupported (path : String) : Bool :=
  match Path.extension? path with
  | none => false
  | some extension => all.any (·.name == lower extension)

end FileType

end Arbor
