import Arbor.Config
import Arbor.Proofs.FileSystem
import Arbor.Proofs.Wire.Extent
import Arbor.Proofs.Wire.Values
import Mathlib.Data.Option.Basic

/-!
# What settings a file gives

A setting stands under a name in a section of a document.  `Config.Means` says for each of the five
settings where it is found, what values it may have and what it is if it is left out, and the
settings of a table are exactly those (`Config.ofEntries?_eq_some_iff`).

`FileSystem.Settles` says the same for a file: it is read as a text, the text as a document, and the
document as settings.  A file that is not there counts as an empty document.
-/

namespace Arbor

namespace Config

open Toml (Item Entries)

/-- What a table has for a setting, by the name of the setting and its place in the section.  The
section is a table, and may also be an array, which gives its settings in order.  Of repeated tables
each stands for one setting, and a date stands for a section without settings. -/
inductive Found (es : Entries) (part name : String) (place : Nat) : Option Item → Prop where
  | absent : es.lookup part = none → Found es part name place none
  | table {origin : Toml.Origin} {entries : Entries} :
      es.lookup part = some (.table origin entries) → Found es part name place (entries.lookup name)
  | array {items : List Item} :
      es.lookup part = some (.array items) → Found es part name place items[place]?
  | tables {tables : List Entries} :
      es.lookup part = some (.tables tables) →
      Found es part name place (tables[place]?.map (.table .header))
  | moment : es.lookup part = some .moment → Found es part name place none

/-- A setting has a value: the one that is found, if it is of the right type, or else the
default. -/
def Gives {α : Type} (es : Entries) (part name : String) (place : Nat) (Reads : Item → α → Prop)
    (default value : α) : Prop :=
  Found es part name place none ∧ value = default ∨
    ∃ item, Found es part name place (some item) ∧ Reads item value

/-- A table means certain settings. -/
structure Means (es : Entries) (c : Config) : Prop where
  unbounded : Gives es "nesting" "unbounded" 0 (fun item b => item = .boolean b) false
    c.nesting.unbounded
  statements : Gives es "nesting" "statements" 1 (fun item (n : Nat) => item = .integer n) 2
    c.nesting.statements
  declarations : Gives es "nesting" "declarations" 2 (fun item (n : Nat) => item = .integer n) 1
    c.nesting.declarations
  threads : Gives es "workers" "threads" 0
    (fun item threads => ∃ n : Nat, item = .integer n ∧ threads = some n) none c.threads
  root : Gives es "paths" "root" 0
    (fun item root => ∃ path, item = .text path ∧ root = some path) none c.root

/-- A flag is a boolean. -/
lemma flag?_eq_some_iff {item : Item} {b : Bool} : flag? item = some b ↔ item = .boolean b := by
  cases item <;> simp [flag?]

/-- A count is a number that is not negative. -/
lemma count?_eq_some_iff {item : Item} {n : Nat} : count? item = some n ↔ item = .integer n := by
  cases item with
  | integer m =>
    simp only [count?, Item.integer.injEq]
    split_ifs with hm
    · rw [Option.some.injEq]
      omega
    · rw [false_iff]
      omega
  | _ => simp [count?]

/-- A path is a text. -/
lemma text?_eq_some_iff {item : Item} {s : String} : text? item = some s ↔ item = .text s := by
  cases item <;> simp [text?]

/-- What is found for a setting is what the section has for it. -/
lemma found_iff {es : Entries} {part name : String} {place : Nat} {given : Option Item} :
    Found es part name place given ↔
      match es.lookup part with
      | none => given = none
      | some item => setting? name place item = some given := by
  constructor
  · rintro (h | h | h | h | h) <;> simp [h, setting?]
  · intro h
    rcases hpart : es.lookup part with _ | item
    · rw [hpart] at h
      exact h ▸ .absent hpart
    · simp only [hpart] at h
      cases item with
      | table origin entries => exact Option.some.inj h ▸ .table hpart
      | array items => exact Option.some.inj h ▸ .array hpart
      | tables tables => exact Option.some.inj h ▸ .tables hpart
      | moment => exact Option.some.inj h ▸ .moment hpart
      | _ => cases h

/-- A setting is read exactly if it has a value. -/
lemma read_eq_some_iff {α : Type} {es : Entries} {part name : String} {place : Nat}
    {reader : Item → Option α} {Reads : Item → α → Prop}
    (hreader : ∀ item value, reader item = some value ↔ Reads item value) {default value : α} :
    read (es.lookup part) name place reader default = some value ↔
      Gives es part name place Reads default value := by
  simp only [Gives, found_iff, ← hreader]
  rcases es.lookup part with _ | item
  · simp [read, eq_comm]
  · simp only [read]
    rcases setting? name place item with _ | (_ | given) <;> simp [eq_comm]

/-- The settings of a table are those that it means. -/
theorem ofEntries?_eq_some_iff {es : Entries} {c : Config} :
    ofEntries? es = some c ↔ Means es c := by
  have hflag := fun item b => @flag?_eq_some_iff item b
  have hcount := fun item n => @count?_eq_some_iff item n
  have hthreads : ∀ item threads, (count? item).map some = some threads ↔
      ∃ n : Nat, item = .integer n ∧ threads = some n := by
    intro item threads
    simp only [Option.map_eq_some_iff, count?_eq_some_iff, @eq_comm _ threads]
  have hroot : ∀ item root, (text? item).map some = some root ↔
      ∃ path, item = .text path ∧ root = some path := by
    intro item root
    simp only [Option.map_eq_some_iff, text?_eq_some_iff, @eq_comm _ root]
  simp only [ofEntries?, bind, Option.bind_eq_some_iff, read_eq_some_iff hflag,
    read_eq_some_iff hcount, read_eq_some_iff hthreads, read_eq_some_iff hroot]
  constructor
  · rintro ⟨_, hunbounded, _, hstatements, _, hdeclarations, _, hthreads, _, hroot, ⟨⟩⟩
    exact ⟨hunbounded, hstatements, hdeclarations, hthreads, hroot⟩
  · rintro ⟨hunbounded, hstatements, hdeclarations, hthreads, hroot⟩
    exact ⟨_, hunbounded, _, hstatements, _, hdeclarations, _, hthreads, _, hroot, rfl⟩

/-- An empty document means the defaults. -/
lemma means_nil_iff {c : Config} : Means [] c ↔ c = {} := by
  rw [← ofEntries?_eq_some_iff, eq_comm]
  exact Option.some_inj

end Config

namespace FileSystem

variable {fs : FileSystem} {path : String}

/-- The file at a path gives certain settings.  If there is no such file, they are those of an empty
document. -/
def Settles (fs : FileSystem) (path : String) (config : Config) : Prop :=
  (∃ e, fs.entry path = .error e) ∧ Config.Means [] config ∨
    ∃ document entries, fs.read path = .ok (bytesOf document) ∧
      Toml.parse? document = some entries ∧ Config.Means entries config

/-- A file is read as a text exactly if it has the bytes of the text. -/
lemma readText?_eq_some_iff {text : String} :
    fs.readText? path = some text ↔ fs.read path = .ok (bytesOf text) := by
  rw [readText?]
  rcases fs.read path with e | content
  · simp
  · simp only [Except.ok.injEq]
    constructor
    · exact fun h => (Wire.toUTF8_of_fromUTF8? h).symm
    · rintro rfl
      exact Wire.fromUTF8?_toUTF8 text

/-- The settings of a file are those that its document means. -/
lemma loadConfig_eq_ok_iff {config : Config} :
    fs.loadConfig path = .ok config ↔
      ∃ document entries, fs.read path = .ok (bytesOf document) ∧
        Toml.parse? document = some entries ∧ Config.Means entries config := by
  simp only [← readText?_eq_some_iff, ← Config.ofEntries?_eq_some_iff]
  rw [loadConfig]
  rcases fs.readText? path with _ | document
  · simp
  · rcases hparse : Toml.parse? document with _ | entries
    · simp [Config.parse?, hparse]
    · rcases hmeans : Config.ofEntries? entries with _ | c <;>
        simp [Config.parse?, hparse, hmeans]

/-- The settings that are loaded are those that the file gives. -/
theorem loadConfigOrDefault_eq_ok_iff {config : Config} :
    fs.loadConfigOrDefault path = .ok config ↔ fs.Settles path config := by
  rw [loadConfigOrDefault, Settles, ← loadConfig_eq_ok_iff, Config.means_nil_iff, isThere]
  rcases hentry : fs.entry path with e | entry
  · have hload : fs.loadConfig path ≠ .ok config := by
      simp [loadConfig, readText?, read, hentry]
    simp [Except.isOk, Except.toBool, hload, eq_comm]
  · simp [Except.isOk, Except.toBool]

end FileSystem

end Arbor
