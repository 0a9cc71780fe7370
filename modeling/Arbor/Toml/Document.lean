import Arbor.Toml.Scalar

/-!
# TOML documents

A document is read line by line.  A line is empty, begins a table, begins one more table
of a repeated header, or gives a value to a key.  Values may be arrays and tables in
braces, nested up to a fixed depth.

## Main declarations

* `readValue`: a value of any type.
* `Line`, `readLines`: the lines of a document.
* `parse?`: the table of a whole document.
-/

namespace Arbor.Toml

/-- How deep values may be nested, and how many parts a key may have. -/
def maxNesting : Nat := 79

/-- Skip blanks. -/
def skipBlanks (cs : List Char) : List Char :=
  cs.dropWhile isBlank

/-- Skip blanks, line ends and comments.  A comment holds printable characters only. -/
def skipLines (inComment : Bool) : List Char → List Char
  | [] => []
  | '\n' :: rest => skipLines false rest
  | '\r' :: '\n' :: rest => skipLines false rest
  | c :: rest =>
    if inComment then if isPrintable c then skipLines true rest else c :: rest
    else if isBlank c then skipLines false rest
    else if c = '#' then skipLines true rest
    else c :: rest

/-- The end of a line, possibly with a comment before it.  The end of the document is the
end of a line, too. -/
def readLineEnd (cs : List Char) : Option (List Char) :=
  let rest :=
    match skipBlanks cs with
    | '#' :: rest => rest.dropWhile isPrintable
    | rest => rest
  match rest with
  | [] => some []
  | '\n' :: rest => some rest
  | '\r' :: '\n' :: rest => some rest
  | _ => none

/-! ### Keys -/

/-- A character of a key without quotes. -/
def isKeyChar (c : Char) : Bool :=
  c.isAlphanum || c = '-' || c = '_'

/-- One part of a key. -/
def readKeyPart (cs : List Char) : Option (String × List Char) :=
  match cs with
  | '\x22' :: rest => (readBasic rest).map fun (s, rest) => (String.ofList s, rest)
  | '\x27' :: rest => (readLiteral rest).map fun (s, rest) => (String.ofList s, rest)
  | _ =>
    let part := cs.takeWhile isKeyChar
    if part = [] then none else some (String.ofList part, cs.dropWhile isKeyChar)

/-- A key with up to the given number of parts, with the blanks around it. -/
def readKey : Nat → List Char → Option (List String × List Char)
  | 0, _ => none
  | n + 1, cs => do
    let (part, rest) ← readKeyPart (skipBlanks cs)
    match skipBlanks rest with
    | '.' :: rest => do
      let (parts, rest) ← readKey n rest
      some (part :: parts, rest)
    | rest => some ([part], rest)

/-- A key, the sign of equality and a value. -/
def readAssignment (value : List Char → Option (Item × List Char)) (cs : List Char) :
    Option ((List String × Item) × List Char) := do
  let (key, rest) ← readKey maxNesting cs
  match rest with
  | '=' :: rest => do
    let (item, rest) ← value (skipBlanks rest)
    some ((key, item), rest)
  | _ => none

/-! ### Values -/

/-- The items of an array up to its closing bracket.  A comma may follow the last. -/
def readItems (value : List Char → Option (Item × List Char)) :
    Nat → List Char → Option (List Item × List Char)
  | 0, _ => none
  | fuel + 1, cs =>
    match skipLines false cs with
    | ']' :: rest => some ([], rest)
    | cs => do
      let (item, rest) ← value cs
      match skipLines false rest with
      | ',' :: rest => do
        let (items, rest) ← readItems value fuel rest
        some (item :: items, rest)
      | ']' :: rest => some ([item], rest)
      | _ => none

/-- The assignments of a table in braces up to its closing brace, at least one. -/
def readMembers (value : List Char → Option (Item × List Char)) :
    Nat → List Char → Option (List (List String × Item) × List Char)
  | 0, _ => none
  | fuel + 1, cs => do
    let (member, rest) ← readAssignment value cs
    match skipBlanks rest with
    | ',' :: rest => do
      let (members, rest) ← readMembers value fuel rest
      some (member :: members, rest)
    | '\x7d' :: rest => some ([member], rest)
    | _ => none

/-- The table with the given assignments. -/
def closedTable (members : List (List String × Item)) : Option Item := do
  let entries ← members.foldlM (fun (es : Entries) (key, item) => es.assign true key item) []
  some (.table .closed entries)

/-- A value, with at most the given number of arrays and tables inside each other. -/
def readValue : Nat → List Char → Option (Item × List Char)
  | _, '\x22' :: rest => (readText ('\x22' :: rest)).map fun (s, rest) => (.text s, rest)
  | _, '\x27' :: rest => (readText ('\x27' :: rest)).map fun (s, rest) => (.text s, rest)
  | _, 't' :: 'r' :: 'u' :: 'e' :: rest => some (.boolean true, rest)
  | _, 'f' :: 'a' :: 'l' :: 's' :: 'e' :: rest => some (.boolean false, rest)
  | 0, '[' :: _ => none
  | 0, '\x7b' :: _ => none
  | depth + 1, '[' :: rest =>
    (readItems (readValue depth) (rest.length + 1) rest).map fun (items, rest) =>
      (.array items, rest)
  | depth + 1, '\x7b' :: rest =>
    match skipBlanks rest with
    | '\x7d' :: rest => some (.table .closed [], rest)
    | rest => do
      let (members, rest) ← readMembers (readValue depth) (rest.length + 1) rest
      some (← closedTable members, rest)
  | _, cs => readNumber cs

/-! ### Lines -/

/-- A line that is not empty. -/
inductive Line where
  | header (path : List String)
  | repeatedHeader (path : List String)
  | assignment (key : List String) (item : Item)
  deriving Inhabited

/-- The lines of a document. -/
def readLines : Nat → List Char → Option (List Line)
  | 0, _ => none
  | fuel + 1, cs =>
    match skipLines false cs with
    | [] => some []
    | '[' :: '[' :: rest => do
      let (path, rest) ← readKey maxNesting rest
      match rest with
      | ']' :: ']' :: rest => do
        let lines ← readLines fuel (← readLineEnd rest)
        some (.repeatedHeader path :: lines)
      | _ => none
    | '[' :: rest => do
      let (path, rest) ← readKey maxNesting rest
      match rest with
      | ']' :: rest => do
        let lines ← readLines fuel (← readLineEnd rest)
        some (.header path :: lines)
      | _ => none
    | cs => do
      let ((key, item), rest) ← readAssignment (readValue maxNesting) cs
      let lines ← readLines fuel (← readLineEnd rest)
      some (.assignment key item :: lines)

/-- Take in a line.  The state is the header in force and the table of the document. -/
def takeLine (state : List String × Entries) : Line → Option (List String × Entries)
  | .header path => (state.2.openTable path).map fun es => (path, es)
  | .repeatedHeader path => (state.2.openRepeated path).map fun es => (path, es)
  | .assignment key item => (state.2.assignBelow state.1 key item).map fun es => (state.1, es)

/-- The table of a document.  A byte order mark at the beginning is skipped. -/
def parse? (document : String) : Option Entries := do
  let cs :=
    match document.toList with
    | '\ufeff' :: cs => cs
    | cs => cs
  let lines ← readLines (cs.length + 1) cs
  let (_, entries) ← lines.foldlM takeLine ([], [])
  some entries

end Arbor.Toml
