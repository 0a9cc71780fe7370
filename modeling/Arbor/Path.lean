/-!
# Paths

A path is a text whose names are separated by slashes.  Two views of it are used here.
Its segments are the pieces between the slashes, and lead through a file system.  Its
components leave out what makes no difference: empty segments, and the dot except at
the beginning.

## Main declarations

* `Path.segments`, `Path.components`: the two views.
* `Path.join`: a name below a path.
* `Path.isTooLong`, `Path.isLongName`: the sizes beyond which nothing is looked up.
* `Path.extension?`: what follows the last dot of the last name.
* `Path.le`: the order by components, in which a folder's contents stand together.
-/

namespace Arbor.Path

/-- The pieces of a text between slashes; there is always one. -/
def split : List Char → List (List Char)
  | [] => [[]]
  | c :: cs =>
    if c = '/' then [] :: split cs
    else
      match split cs with
      | [] => [[c]]
      | s :: ss => (c :: s) :: ss

/-- The pieces of a path between slashes. -/
def segments (path : String) : List String :=
  (split path.toList).map String.ofList

/-- Whether a path starts at the top of the file system. -/
def isAbsolute (path : String) : Bool :=
  path.toList.head? == some '/'

/-- The path of a name below the given path.  A slash stands between them, unless the path
is empty or has one at its end. -/
def join (path name : String) : String :=
  if path = "" ∨ path.toList.getLast? = some '/' then path ++ name else path ++ "/" ++ name

/-- The number of bytes that a path may have. -/
def maxSize : Nat := 4095

/-- Whether a path is too long to be looked up. -/
def isTooLong (path : String) : Bool :=
  maxSize < path.utf8ByteSize

/-- Whether a name is too long to be that of a file or folder.  A name has at most 255
bytes. -/
def isLongName (name : String) : Bool :=
  255 < name.utf8ByteSize

/-! ### Components -/

/-- A part of a path that makes a difference. -/
inductive Component where
  /-- The top of the file system. -/
  | top
  /-- The current folder, as the first component only. -/
  | here
  /-- The enclosing folder. -/
  | up
  /-- A name. -/
  | name (s : String)
  deriving DecidableEq, Inhabited

/-- The component of a segment that is not the first. -/
def component? (segment : String) : Option Component :=
  if segment = "" ∨ segment = "." then none
  else if segment = ".." then some .up
  else some (.name segment)

/-- The components of a path. -/
def components (path : String) : List Component :=
  match segments path with
  | [] => []
  | first :: rest =>
    let start : List Component :=
      if isAbsolute path then [.top]
      else if first = "." then [.here]
      else (component? first).toList
    start ++ rest.filterMap component?

/-- The last component, if it is a name. -/
def fileName? (path : String) : Option String :=
  match (components path).getLast? with
  | some (.name s) => some s
  | _ => none

/-- What follows the last dot of a name.  A dot at the beginning does not count. -/
def extensionOfName? (name : String) : Option String :=
  let after := name.toList.reverse.takeWhile (· != '.')
  let before := name.toList.reverse.dropWhile (· != '.')
  if before.length ≤ 1 then none else some (String.ofList after.reverse)

/-- What follows the last dot of the last name. -/
def extension? (path : String) : Option String :=
  (fileName? path).bind extensionOfName?

/-! ### Order -/

/-- The place of a component among the types of component, and its text. -/
def Component.key : Component → Nat × String
  | top => (0, "")
  | here => (1, "")
  | up => (2, "")
  | name s => (3, s)

/-- Whether a component comes before another. -/
def Component.before (a b : Component) : Bool :=
  a.key.1 < b.key.1 || (a.key.1 == b.key.1 && decide (a.key.2 < b.key.2))

/-- Whether a list of components comes before another or is equal to it: the first
difference decides, and a beginning comes before the whole. -/
def leComponents : List Component → List Component → Bool
  | [], _ => true
  | _ :: _, [] => false
  | a :: as, b :: bs => if a = b then leComponents as bs else a.before b

/-- Whether a path comes before another or has the same components. -/
def le (p q : String) : Bool :=
  leComponents (components p) (components q)

end Arbor.Path
