import Arbor.Toml.Item

/-!
# TOML texts, numbers and dates

Readers for the items that have no items inside.  Each takes the characters ahead and
gives what it has read with the characters behind it, or nothing if there is no such
item.
-/

namespace Arbor.Toml

/-- A space or a tab. -/
def isBlank (c : Char) : Bool :=
  c = ' ' || c = '\t'

/-- A character that may stand in a comment or a text: no control character of ASCII but
the tab. -/
def isPrintable (c : Char) : Bool :=
  c = '\t' || (32 ≤ c.toNat && c.toNat != 127)

/-- A decimal digit. -/
def isDigit (c : Char) : Bool :=
  48 ≤ c.toNat && c.toNat ≤ 57

/-- The value of a digit in a base up to sixteen. -/
def digitValue? (base : Nat) (c : Char) : Option Nat :=
  let n := c.toNat
  let value? :=
    if isDigit c then some (n - 48)
    else if 97 ≤ n ∧ n ≤ 102 then some (n - 87)
    else if 65 ≤ n ∧ n ≤ 70 then some (n - 55)
    else none
  value?.filter (· < base)

/-- The number with the given digits. -/
def ofDigits (base : Nat) (digits : List Nat) : Nat :=
  digits.foldl (fun n d => base * n + d) 0

/-! ### Texts -/

/-- The character with a code given by hexadecimal digits. -/
def charOfHex? (digits : List Char) : Option Char := do
  let values ← digits.mapM (digitValue? 16)
  let code := ofDigits 16 values
  if code.isValidChar then some (Char.ofNat code) else none

/-- The character that an escape of one letter stands for. -/
def simpleEscape? : Char → Option Char
  | 'b' => some '\x08'
  | 't' => some '\t'
  | 'n' => some '\n'
  | 'f' => some '\x0c'
  | 'r' => some '\r'
  | '\x22' => some '\x22'
  | '\\' => some '\\'
  | _ => none

/-- Put a character in front of what a reader has read. -/
def consRead (c : Char) (r : Option (List Char × List Char)) :
    Option (List Char × List Char) :=
  r.map fun (cs, rest) => (c :: cs, rest)

/-- A text in double quotes, behind the first quote. -/
def readBasic : List Char → Option (List Char × List Char)
  | '\x22' :: rest => some ([], rest)
  | '\\' :: 'u' :: a :: b :: c :: d :: rest => do
    consRead (← charOfHex? [a, b, c, d]) (readBasic rest)
  | '\\' :: 'U' :: a :: b :: c :: d :: e :: f :: g :: h :: rest => do
    consRead (← charOfHex? [a, b, c, d, e, f, g, h]) (readBasic rest)
  | '\\' :: c :: rest => do
    consRead (← simpleEscape? c) (readBasic rest)
  | c :: rest => if isPrintable c && c != '\\' then consRead c (readBasic rest) else none
  | [] => none

/-- A text in single quotes, behind the first quote. -/
def readLiteral : List Char → Option (List Char × List Char)
  | '\x27' :: rest => some ([], rest)
  | c :: rest => if isPrintable c then consRead c (readLiteral rest) else none
  | [] => none

/-- What the reader of a text of several lines is doing. -/
inductive LineMode where
  /-- Taking in the text. -/
  | plain
  /-- Behind a backslash that has to be the last character of its line but for blanks. -/
  | lineEnd
  /-- Behind such a line: blanks and line ends are left out. -/
  | trim

/-- A text of several lines in double quotes, behind the first line end if it begins with
one.  Up to two quotes may stand directly before the closing ones. -/
def readMultiBasic : LineMode → List Char → Option (List Char × List Char)
  | .lineEnd, '\n' :: rest => readMultiBasic .trim rest
  | .lineEnd, '\r' :: '\n' :: rest => readMultiBasic .trim rest
  | .lineEnd, c :: rest => if isBlank c then readMultiBasic .lineEnd rest else none
  | .trim, '\n' :: rest => readMultiBasic .trim rest
  | .trim, '\r' :: '\n' :: rest => readMultiBasic .trim rest
  | .trim, ' ' :: rest => readMultiBasic .trim rest
  | .trim, '\t' :: rest => readMultiBasic .trim rest
  | _, '\x22' :: '\x22' :: '\x22' :: '\x22' :: '\x22' :: rest => some (['\x22', '\x22'], rest)
  | _, '\x22' :: '\x22' :: '\x22' :: '\x22' :: rest => some (['\x22'], rest)
  | _, '\x22' :: '\x22' :: '\x22' :: rest => some ([], rest)
  | _, '\\' :: 'u' :: a :: b :: c :: d :: rest => do
    consRead (← charOfHex? [a, b, c, d]) (readMultiBasic .plain rest)
  | _, '\\' :: 'U' :: a :: b :: c :: d :: e :: f :: g :: h :: rest => do
    consRead (← charOfHex? [a, b, c, d, e, f, g, h]) (readMultiBasic .plain rest)
  | _, '\\' :: '\n' :: rest => readMultiBasic .trim rest
  | _, '\\' :: '\r' :: '\n' :: rest => readMultiBasic .trim rest
  | _, '\\' :: ' ' :: rest => readMultiBasic .lineEnd rest
  | _, '\\' :: '\t' :: rest => readMultiBasic .lineEnd rest
  | _, '\\' :: c :: rest => do
    consRead (← simpleEscape? c) (readMultiBasic .plain rest)
  | _, '\n' :: rest => consRead '\n' (readMultiBasic .plain rest)
  | _, '\r' :: '\n' :: rest => consRead '\n' (readMultiBasic .plain rest)
  | _, c :: rest =>
    if isPrintable c && c != '\\' then consRead c (readMultiBasic .plain rest) else none
  | _, [] => none

/-- A text of several lines in single quotes, behind the first line end if it begins with
one. -/
def readMultiLiteral : List Char → Option (List Char × List Char)
  | '\x27' :: '\x27' :: '\x27' :: '\x27' :: '\x27' :: rest => some (['\x27', '\x27'], rest)
  | '\x27' :: '\x27' :: '\x27' :: '\x27' :: rest => some (['\x27'], rest)
  | '\x27' :: '\x27' :: '\x27' :: rest => some ([], rest)
  | '\n' :: rest => consRead '\n' (readMultiLiteral rest)
  | '\r' :: '\n' :: rest => consRead '\n' (readMultiLiteral rest)
  | c :: rest => if isPrintable c then consRead c (readMultiLiteral rest) else none
  | [] => none

/-- Leave out one line end. -/
def dropLineEnd : List Char → List Char
  | '\n' :: rest => rest
  | '\r' :: '\n' :: rest => rest
  | cs => cs

/-- A text of any form. -/
def readText (cs : List Char) : Option (String × List Char) := do
  let (content, rest) ←
    match cs with
    | '\x22' :: '\x22' :: '\x22' :: cs => readMultiBasic .plain (dropLineEnd cs)
    | '\x22' :: cs => readBasic cs
    | '\x27' :: '\x27' :: '\x27' :: cs => readMultiLiteral (dropLineEnd cs)
    | '\x27' :: cs => readLiteral cs
    | _ => none
  some (String.ofList content, rest)

/-! ### Numbers -/

/-- Digits of a base, behind the first; single underscores may stand between them. -/
def readDigits (base : Nat) : List Char → List Nat × List Char
  | [] => ([], [])
  | '_' :: c :: rest =>
    match digitValue? base c with
    | some d =>
      let (ds, rest) := readDigits base rest
      (d :: ds, rest)
    | none => ([], '_' :: c :: rest)
  | c :: rest =>
    match digitValue? base c with
    | some d =>
      let (ds, rest) := readDigits base rest
      (d :: ds, rest)
    | none => ([], c :: rest)

/-- At least one digit of a base. -/
def readDigits? (base : Nat) : List Char → Option (List Nat × List Char)
  | [] => none
  | c :: rest => do
    let d ← digitValue? base c
    let (ds, rest) := readDigits base rest
    some (d :: ds, rest)

/-- A sign, if there is one: whether it is a minus. -/
def readSign : List Char → Bool × List Char
  | '-' :: rest => (true, rest)
  | '+' :: rest => (false, rest)
  | cs => (false, cs)

/-- The digits of a whole number.  Nothing follows a leading zero. -/
def readWhole : List Char → Option (List Nat × List Char)
  | '0' :: rest => some ([0], rest)
  | cs => readDigits? 10 cs

/-- The digits behind the point of a number, if there is one.  A point without digits is
an error. -/
def readFraction : List Char → Option (Option (List Nat) × List Char)
  | '.' :: rest => (readDigits? 10 rest).map fun (ds, rest) => (some ds, rest)
  | cs => some (none, cs)

/-- The exponent of a number, if there is one.  An exponent without digits is an error. -/
def readExponent : List Char → Option (Option Int × List Char)
  | c :: rest =>
    if c = 'e' ∨ c = 'E' then do
      let (negative, rest) := readSign rest
      let (ds, rest) ← readDigits? 10 rest
      let n : Int := ofDigits 10 ds
      some (some (if negative then -n else n), rest)
    else some (none, c :: rest)
  | [] => some (none, [])

/-- The least number that is too large for a binary fraction of 64 bits: halfway between
the largest such number and the next power of two. -/
def fractionBound : Nat := Nat.pow 2 1024 - Nat.pow 2 970

/-- Whether `digits · 10 ^ exponent` is too large for a binary fraction of 64 bits. -/
def overflows (digits : List Nat) (exponent : Int) : Bool :=
  let digits := digits.dropWhile (· = 0)
  let size : Int := digits.length + exponent
  if digits = [] ∨ size ≤ 308 then false
  else if 310 < size then true
  else
    let n := ofDigits 10 digits
    if 0 ≤ exponent then fractionBound ≤ n * Nat.pow 10 exponent.toNat
    else fractionBound * Nat.pow 10 (-exponent).toNat ≤ n

/-- A whole number that fits 64 bits with sign. -/
def integer? (negative : Bool) (n : Nat) : Option Item :=
  let value : Int := if negative then -n else n
  if -0x8000000000000000 ≤ value ∧ value < 0x8000000000000000 then some (.integer value) else none

/-- A number in a base other than ten, behind its mark. -/
def readRadix (base : Nat) (cs : List Char) : Option (Item × List Char) := do
  let (ds, rest) ← readDigits? base cs
  some (← integer? false (ofDigits base ds), rest)

/-- A number in base ten, with or without a fraction. -/
def readDecimal (cs : List Char) : Option (Item × List Char) := do
  let (negative, cs) := readSign cs
  match cs with
  | 'i' :: 'n' :: 'f' :: rest => some (.float, rest)
  | 'n' :: 'a' :: 'n' :: rest => some (.float, rest)
  | _ =>
    let (whole, rest) ← readWhole cs
    let (fraction, rest) ← readFraction rest
    let (exponent, rest) ← readExponent rest
    if fraction.isSome || exponent.isSome then
      let places := fraction.getD []
      if !negative && overflows (whole ++ places) (exponent.getD 0 - places.length) then none
      else some (.float, rest)
    else some (← integer? negative (ofDigits 10 whole), rest)

/-! ### Dates and times -/

/-- A number of exactly two digits up to a bound. -/
def readTwo (low high : Nat) : List Char → Option (Nat × List Char)
  | a :: b :: rest => do
    let n := ofDigits 10 [← digitValue? 10 a, ← digitValue? 10 b]
    if low ≤ n ∧ n ≤ high then some (n, rest) else none
  | _ => none

/-- The number of days of a month. -/
def daysIn (year month : Nat) : Nat :=
  if month = 2 then
    if year % 4 = 0 ∧ (year % 100 ≠ 0 ∨ year % 400 = 0) then 29 else 28
  else if month = 4 ∨ month = 6 ∨ month = 9 ∨ month = 11 then 30
  else 31

/-- A fraction of a second, if there is one. -/
def dropFraction : List Char → List Char
  | '.' :: c :: rest => if isDigit c then rest.dropWhile isDigit else '.' :: c :: rest
  | cs => cs

/-- Minutes and seconds, behind the hour and its colon. -/
def readMinutes (cs : List Char) : Option (List Char) := do
  let (_, rest) ← readTwo 0 59 cs
  match rest with
  | ':' :: rest =>
    let (_, rest) ← readTwo 0 60 rest
    some (dropFraction rest)
  | _ => none

/-- An offset from universal time, if there is one. -/
def readOffset : List Char → Option (List Char)
  | c :: rest =>
    if c = 'Z' ∨ c = 'z' then some rest
    else if c = '+' ∨ c = '-' then do
      let (_, rest) ← readTwo 0 23 rest
      match rest with
      | ':' :: rest => (readTwo 0 59 rest).map (·.2)
      | _ => none
    else some (c :: rest)
  | [] => some []

/-- Whether the characters ahead begin with an hour and a colon. -/
def startsWithHour (cs : List Char) : Bool :=
  match readTwo 0 23 cs with
  | some (_, ':' :: _) => true
  | _ => false

/-- The time of day and offset behind a date, if there are any. -/
def readTimeOfDay : List Char → Option (List Char)
  | c :: rest =>
    if (c = 'T' ∨ c = 't' ∨ c = ' ') ∧ startsWithHour rest then do
      readOffset (← readMinutes (rest.drop 3))
    else some (c :: rest)
  | [] => some []

/-- Whether the characters ahead begin with four digits and a dash. -/
def startsWithYear : List Char → Bool
  | a :: b :: c :: d :: '-' :: _ => [a, b, c, d].all isDigit
  | _ => false

/-- A date, with a time or without. -/
def readDate (cs : List Char) : Option (List Char) := do
  let year := ofDigits 10 ((cs.take 4).filterMap (digitValue? 10))
  let (month, rest) ← readTwo 1 12 (cs.drop 5)
  match rest with
  | '-' :: rest =>
    let (day, rest) ← readTwo 1 31 rest
    if day ≤ daysIn year month then readTimeOfDay rest else none
  | _ => none

/-- A date, a time or a number. -/
def readNumber (cs : List Char) : Option (Item × List Char) :=
  if startsWithYear cs then (readDate cs).map fun rest => (.moment, rest)
  else if startsWithHour cs then (readMinutes (cs.drop 3)).map fun rest => (.moment, rest)
  else
    match cs with
    | '0' :: 'x' :: rest => readRadix 16 rest
    | '0' :: 'o' :: rest => readRadix 8 rest
    | '0' :: 'b' :: rest => readRadix 2 rest
    | _ => readDecimal cs

end Arbor.Toml
