/-!
# Pretty JSON

JSON values without numbers other than naturals, and without null, with their one
printed form.  Members of objects keep their order.  Each item stands on a line of its
own, indented by two spaces for each level; empty arrays and objects take no line.  In
texts, quotes, backslashes and control characters are escaped, and nothing else.

The printers take the text that follows, so that a printed value is a beginning of the
whole.

## Main declarations

* `Json`: the values.
* `Json.pretty`: the printed form.
-/

namespace Arbor

/-- A JSON value. -/
inductive Json where
  | bool (b : Bool)
  | num (n : Nat)
  | str (s : String)
  | arr (items : List Json)
  | obj (members : List (String × Json))
  deriving Inhabited

namespace Json

/-- The hexadecimal digit of a number below sixteen, in lower case. -/
def hexDigit (n : Nat) : Char :=
  Nat.digitChar n

/-- How a character is written inside a text. -/
def escape (c : Char) : List Char :=
  if c = '\x22' then ['\\', '\x22']
  else if c = '\\' then ['\\', '\\']
  else if c = '\x08' then ['\\', 'b']
  else if c = '\x0c' then ['\\', 'f']
  else if c = '\n' then ['\\', 'n']
  else if c = '\r' then ['\\', 'r']
  else if c = '\t' then ['\\', 't']
  else if c.toNat < 32 then
    ['\\', 'u', '0', '0', hexDigit (c.toNat / 16), hexDigit (c.toNat % 16)]
  else [c]

/-- Write a text in quotes. -/
def writeText (s : String) (rest : List Char) : List Char :=
  '\x22' :: (s.toList.flatMap escape ++ '\x22' :: rest)

/-- Begin a line at the given level. -/
def newLine (level : Nat) (rest : List Char) : List Char :=
  '\n' :: (List.replicate (2 * level) ' ' ++ rest)

mutual

/-- Write a value that stands at the given level. -/
def write (level : Nat) : Json → List Char → List Char
  | bool b, rest => (if b then "true" else "false").toList ++ rest
  | num n, rest => Nat.toDigits 10 n ++ rest
  | str s, rest => writeText s rest
  | arr [], rest => '[' :: ']' :: rest
  | arr (j :: js), rest =>
    '[' :: newLine (level + 1) (write (level + 1) j
      (writeItems (level + 1) js (newLine level (']' :: rest))))
  | obj [], rest => '\x7b' :: '\x7d' :: rest
  | obj ((k, j) :: ms), rest =>
    '\x7b' :: newLine (level + 1) (writeText k (':' :: ' ' :: write (level + 1) j
      (writeMembers (level + 1) ms (newLine level ('\x7d' :: rest)))))

/-- Write the items of an array behind the first. -/
def writeItems (level : Nat) : List Json → List Char → List Char
  | [], rest => rest
  | j :: js, rest => ',' :: newLine level (write level j (writeItems level js rest))

/-- Write the members of an object behind the first. -/
def writeMembers (level : Nat) : List (String × Json) → List Char → List Char
  | [], rest => rest
  | (k, j) :: ms, rest =>
    ',' :: newLine level
      (writeText k (':' :: ' ' :: write level j (writeMembers level ms rest)))

end

/-- The printed form of a value. -/
def pretty (j : Json) : String :=
  String.ofList (write 0 j [])

/-- An array of texts. -/
def texts (ss : List String) : Json :=
  arr (ss.map str)

end Json

end Arbor
