/-!
# TOML items

A TOML document is a table of named items.  A table remembers how it came about, because
that decides which later lines may still add to it:

* a table made by a header line is complete after its lines, but headers may name tables
  below it;
* a table implied by the header of a table below it may still get a header of its own;
* a table made by a dotted key takes further dotted keys, and no header;
* a table written in braces is closed.

Dates, times and numbers with a fraction are read, but their values are not kept.
-/

namespace Arbor.Toml

/-- How a table came about. -/
inductive Origin where
  | header
  | implied
  | dotted
  | closed
  deriving DecidableEq, Inhabited

/-- A value of a document. -/
inductive Item where
  | text (s : String)
  | integer (n : Int)
  | boolean (b : Bool)
  | float
  /-- A date, a time or both. -/
  | moment
  | array (items : List Item)
  | table (origin : Origin) (entries : List (String × Item))
  /-- The tables of a repeated header, in order. -/
  | tables (tables : List (List (String × Item)))
  deriving Inhabited

/-- The entries of a table. -/
abbrev Entries := List (String × Item)

namespace Entries

/-- Replace the item of a name, or add one at the end. -/
def set (name : String) (new : Item) : Entries → Entries
  | [] => [(name, new)]
  | (n, i) :: es => if n = name then (n, new) :: es else (n, i) :: set name new es

/-- Give a value to a dotted key.  `direct` says whether the last part may stand in this
very table. -/
def assign (direct : Bool) : List String → Item → Entries → Option Entries
  | [], _, _ => none
  | [name], item, es =>
    if direct && (es.lookup name).isNone then some (es ++ [(name, item)]) else none
  | name :: rest, item, es =>
    match es.lookup name with
    | none => do
      let inner ← assign true rest item []
      some (es ++ [(name, .table .dotted inner)])
    | some (.table .dotted inner) => do
      let inner ← assign true rest item inner
      some (set name (.table .dotted inner) es)
    | some (.table .implied inner) => do
      let inner ← assign false rest item inner
      some (set name (.table .implied inner) es)
    | some (.tables ts) => do
      let inner ← assign false rest item (ts.getLast?.getD [])
      some (set name (.tables (ts.dropLast ++ [inner])) es)
    | some _ => none

/-- Change the item that a header names.  Tables on the way are made if they are missing,
and of repeated tables the last is meant. -/
def atHeader (change : Option Item → Option Item) : List String → Entries → Option Entries
  | [], _ => none
  | [name], es => do
    let item ← change (es.lookup name)
    some (set name item es)
  | name :: rest, es =>
    match es.lookup name with
    | none => do
      let inner ← atHeader change rest []
      some (es ++ [(name, .table .implied inner)])
    | some (.table .closed _) => none
    | some (.table origin inner) => do
      let inner ← atHeader change rest inner
      some (set name (.table origin inner) es)
    | some (.tables ts) => do
      let inner ← atHeader change rest (ts.getLast?.getD [])
      some (set name (.tables (ts.dropLast ++ [inner])) es)
    | some _ => none

/-- Begin the table of a header.  Only an implied table may be there already. -/
def openTable (path : List String) (es : Entries) : Option Entries :=
  es.atHeader (fun
    | none => some (.table .header [])
    | some (.table .implied inner) => some (.table .header inner)
    | some _ => none) path

/-- Begin one more table of a repeated header. -/
def openRepeated (path : List String) (es : Entries) : Option Entries :=
  es.atHeader (fun
    | none => some (.tables [[]])
    | some (.tables ts) => some (.tables (ts ++ [[]]))
    | some _ => none) path

/-- Give a value to a dotted key below a header. -/
def assignBelow (header : List String) (key : List String) (item : Item) (es : Entries) :
    Option Entries :=
  if header = [] then assign true key item es
  else
    es.atHeader (fun
      | some (.table origin inner) => (assign true key item inner).map (.table origin)
      | some (.tables ts) =>
        (assign true key item (ts.getLast?.getD [])).map fun inner =>
          .tables (ts.dropLast ++ [inner])
      | _ => none) header

end Entries

end Arbor.Toml
