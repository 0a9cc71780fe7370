import Arbor.Proofs.Canonical
import Arbor.Proofs.Walk.Visits
import Arbor.Proofs.Wire.Thinning
import Mathlib.Data.List.Perm.Basic

/-!
# A node and its children in canonical form

The canonical records of a node hold a message for each of its children, with the records of the
child.  Only a single child that says nothing, the placeholder or the unnamed type of kind
`other`, has no message.  `Node.perm_bodies_records` states this for all types of nodes at once, so
that what is shown about trees and bytes step by step need not be shown type by type.
-/

namespace Arbor

open Wire (Record)

/-! ### Messages among records -/

namespace Wire

/-- The records inside a message. -/
def Record.inside? : Record → Option (List Record)
  | .message _ records => some records
  | _ => none

/-- The contents of the messages among records. -/
def bodies (rs : List Record) : List (List Record) :=
  rs.filterMap Record.inside?

/-- Only messages have records inside. -/
lemma Record.eq_of_inside? {r : Record} {body : List Record} (h : r.inside? = some body) :
    ∃ number, r = .message number body := by
  cases r with
  | message number records => exact ⟨number, congrArg _ (Option.some.inj h)⟩
  | _ => cases h

/-- Messages nest one level less than the records that they are among. -/
lemma nesting_lt_of_mem_bodies {rs body : List Record} (h : body ∈ bodies rs) :
    nesting body < nesting rs := by
  obtain ⟨r, hr, hinside⟩ := List.mem_filterMap.mp h
  obtain ⟨number, rfl⟩ := Record.eq_of_inside? hinside
  have hle := nesting_le_iff.mp (Nat.le_refl (nesting rs)) _ hr
  rwa [Record.nesting] at hle

/-- The messages among two lists of records are put together. -/
@[simp] lemma bodies_append (rs rs' : List Record) :
    bodies (rs ++ rs') = bodies rs ++ bodies rs' :=
  List.filterMap_append

/-- The records of submessages have their contents inside. -/
@[simp] lemma bodies_messages {α : Type} (number : Nat) (f : α → List Record) (as : List α) :
    bodies (as.map fun a => .message number (f a)) = as.map f := by
  have hinside : Record.inside? ∘ (fun a => .message number (f a)) = some ∘ f := rfl
  rw [bodies, List.filterMap_map, hinside, List.filterMap_eq_map]

/-- There are no messages among texts. -/
@[simp] lemma bodies_texts (number : Nat) (ss : List String) :
    bodies (ss.map (.text number)) = [] := by
  rw [bodies, List.filterMap_map, List.filterMap_eq_nil_iff]
  exact fun _ _ => rfl

end Wire

namespace Message

@[simp] lemma bodies_textRecord (number : Nat) (s : String) :
    Wire.bodies (textRecord number s) = [] := by
  unfold textRecord
  split <;> rfl

@[simp] lemma bodies_kindRecord (number : Nat) (tag : Int) :
    Wire.bodies (kindRecord number tag) = [] := by
  unfold kindRecord
  split <;> rfl

@[simp] lemma bodies_flagRecord (number : Nat) (b : Bool) :
    Wire.bodies (flagRecord number b) = [] := by
  unfold flagRecord
  split <;> rfl

end Message

/-! ### Messages of children -/

/-- The canonical records of a node. -/
def Node.records : Node → List Record
  | root r => r.toMessage.records
  | ns n => n.toMessage.records
  | decl d => d.toMessage.records
  | method m => m.toMessage.records
  | var v => v.toMessage.records
  | stmt s => s.toMessage.records
  | expr e => e.toMessage.records
  | mod m => m.toMessage.records
  | type t => t.toMessage.records

/-- The children in a slot that have a message.  A single child may do without. -/
def Slot.written : Slot → List Node
  | many children => children
  | one (.type t) => if t = {} then [] else [.type t]
  | one (.expr e) => if e.isPlaceholder then [] else [.expr e]
  | one child => [child]

@[simp] lemma Slot.written_many (children : List Node) : (many children).written = children := rfl

/-- The message of a single type is written exactly if the slot has a child that is written. -/
@[simp] lemma TypeRef.map_toMessage? (t : TypeRef) :
    t.toMessage?.toList.map Message.TypeRef.records =
      (Slot.one (.type t)).written.map Node.records := by
  have hwritten : (Slot.one (.type t)).written = if t = {} then [] else [.type t] := rfl
  rw [hwritten, toMessage?]
  split <;> rfl

/-- The message of a single expression is written exactly if the slot has a child that is
written. -/
@[simp] lemma Expression.map_toMessage? (e : Expression) :
    e.toMessage?.toList.map Message.Expression.records =
      (Slot.one (.expr e)).written.map Node.records := by
  have hwritten : (Slot.one (.expr e)).written = if e.isPlaceholder then [] else [.expr e] := rfl
  rw [hwritten, toMessage?]
  split <;> rfl

/-- A child has a message, or it is one of the two nodes that may do without. -/
lemma Slot.mem_written_or {slot : Slot} {c : Node} (h : c ∈ slot.children) :
    c ∈ slot.written ∨ c = .expr .placeholder ∨ c = .type {} := by
  cases slot with
  | many children => exact .inl h
  | one child =>
    have hc : c = child := List.mem_singleton.mp h
    subst hc
    cases c with
    | type t =>
      by_cases ht : t = {}
      · exact .inr (.inr (congrArg Node.type ht))
      · left
        simp [Slot.written, ht]
    | expr e =>
      by_cases he : e.isPlaceholder = true
      · exact .inr (.inl (congrArg Node.expr (Expression.isPlaceholder_iff.mp he)))
      · left
        simp [Slot.written, he]
    | _ => exact .inl h

/-- The slots of a node in the order of the numbers of their fields. -/
def Node.fields : Node → List Slot
  | root r => [.many (r.namespaces.map ns)]
  | ns n => [.many (n.modifiers.map mod), .many (n.declarations.map decl)]
  | decl d => [.many (d.modifiers.map mod), .many (d.fields.map var), .many (d.methods.map method),
      .many (d.parents.map type), .many (d.nested.map decl)]
  | method m => [.one (type m.returnType), .many (m.modifiers.map mod), .many (m.arguments.map var),
      .many (m.statements.map stmt), .many (m.content.map expr)]
  | var v => [.one (type v.type), .one (expr v.initializer), .many (v.modifiers.map mod)]
  | stmt s => [.many (s.expressions.map expr), .one (expr s.condition),
      .many (s.statements.map stmt), .many (s.initializations.map expr),
      .many (s.updates.map expr)]
  | expr e => [.many (e.arguments.map expr), .many (e.declared.map var), .one (type e.newType),
      .many (e.operands.map expr)]
  | mod _ => []
  | type _ => []

/-- The order of the fields is that of the walk, up to the places of two neighbouring blocks. -/
lemma Node.perm_fields_slots (n : Node) : n.fields.Perm n.slots := by
  cases n with
  | decl d =>
    have hblocks := @List.perm_append_comm Slot
      [.many (d.fields.map var), .many (d.methods.map method)] [.many (d.parents.map type)]
    exact .cons _ (hblocks.append_right [_])
  | method m =>
    have hblocks := @List.perm_append_comm Slot [.one (type m.returnType)]
      [.many (m.modifiers.map mod), .many (m.arguments.map var)]
    exact hblocks.append_right [_, _]
  | var v => exact @List.perm_append_comm _ [_, _] [_]
  | stmt s => exact .cons _ (@List.perm_append_comm _ [_, _] [_, _])
  | expr e => exact .cons _ (.cons _ (@List.perm_append_comm _ [_] [_]))
  | _ => exact .refl _

/-- The messages among the canonical records of a node are those of its children, field by
field. -/
lemma Node.bodies_records (n : Node) :
    Wire.bodies n.records = (n.fields.flatMap Slot.written).map Node.records := by
  cases n with
  | root r =>
    simp [Node.records, Root.toMessage, Message.Root.records, fields, Function.comp_def]
  | ns n =>
    simp [Node.records, Namespace.toMessage, Message.Namespace.records, fields, Function.comp_def]
  | decl d =>
    rw [Node.records, Declaration.toMessage_eq, Message.Declaration.records_eq]
    simp [fields, Function.comp_def, Node.records]
  | method m =>
    simp [Node.records, Method.toMessage, Message.Method.records, fields, Function.comp_def]
  | var v =>
    rw [Node.records, Variable.toMessage_eq, Message.Variable.records_eq]
    simp [fields, Function.comp_def, Node.records]
  | stmt s =>
    rw [Node.records, Statement.toMessage_eq, Message.Statement.records_eq]
    simp [fields, Function.comp_def, Node.records]
  | expr e =>
    rw [Node.records, Expression.toMessage_eq, Message.Expression.records_eq]
    simp [fields, Function.comp_def, Node.records]
  | mod m => simp [Node.records, Modifier.toMessage, Message.Modifier.records, fields]
  | type t => simp [Node.records, TypeRef.toMessage, Message.TypeRef.records, fields]

/-- The messages among the canonical records of a node are those of its children, except for single
children that say nothing. -/
theorem Node.perm_bodies_records (n : Node) :
    (Wire.bodies n.records).Perm ((n.slots.flatMap Slot.written).map Node.records) := by
  rw [n.bodies_records]
  exact (n.perm_fields_slots.flatMap_right Slot.written).map Node.records

end Arbor
