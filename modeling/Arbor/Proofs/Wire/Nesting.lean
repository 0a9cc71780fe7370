import Arbor.Wire.Record
import Mathlib.Tactic.Lemma

/-!
# Records inside records

The records of a message may be messages themselves.  `nesting` counts how many messages
stand inside each other, and `longest` looks for the longest text in all of them.  The
induction principles follow the same structure: `records_induction` takes a list of records
apart from the front, `bodies_induction` hands out the hypothesis for all messages of the
list at once.
-/

namespace Arbor.Wire

mutual

/-- How many messages a record nests inside each other. -/
def Record.nesting : Record → Nat
  | .message _ records => nesting records + 1
  | _ => 0

/-- How many messages a list of records nests inside each other. -/
def nesting : List Record → Nat
  | [] => 0
  | r :: rs => max r.nesting (nesting rs)

end

mutual

/-- The number of bytes in the longest text of a record. -/
def Record.longest : Record → Nat
  | .text _ s => s.toUTF8.data.toList.length
  | .message _ records => longest records
  | _ => 0

/-- The number of bytes in the longest text of a list of records. -/
def longest : List Record → Nat
  | [] => 0
  | r :: rs => max r.longest (longest rs)

end

/-- Records nest no deeper than all of them do. -/
lemma nesting_le_iff {rs : List Record} {k : Nat} : nesting rs ≤ k ↔ ∀ r ∈ rs, r.nesting ≤ k := by
  induction rs with
  | nil => simp [nesting]
  | cons r rs ih => rw [nesting, Nat.max_le, ih, List.forall_mem_cons]

/-- The content of records is no longer than that of each of them. -/
lemma longest_le_iff {rs : List Record} {k : Nat} : longest rs ≤ k ↔ ∀ r ∈ rs, r.longest ≤ k := by
  induction rs with
  | nil => simp [longest]
  | cons r rs ih => rw [longest, Nat.max_le, ih, List.forall_mem_cons]

/-- A property holds of all lists of records if it holds of the empty list and each longer
list inherits it from its tail and from the records of the message in front, if there is
one. -/
theorem records_induction {P : List Record → Prop} (hnil : P [])
    (hcons : ∀ r rs, (∀ number body, r = .message number body → P body) → P rs → P (r :: rs))
    (rs : List Record) : P rs :=
  @Record.rec_1 (fun r => ∀ number body, r = .message number body → P body) P
    (fun _ _ _ _ h => nomatch h) (fun _ _ _ _ h => nomatch h) (fun _ _ _ _ h => nomatch h)
    (fun _ _ hbody _ _ h => (Record.message.inj h).2 ▸ hbody) (fun _ _ _ h => nomatch h)
    hnil (fun r rs hr hrs => hcons r rs hr hrs) rs

/-- A property holds of all lists of records if each list inherits it from the messages in
it. -/
theorem bodies_induction {P : List Record → Prop}
    (h : ∀ rs, (∀ number body, .message number body ∈ rs → P body) → P rs)
    (rs : List Record) : P rs := by
  apply h
  induction rs using records_induction with
  | hnil => exact fun _ _ hmem => nomatch hmem
  | hcons r rs ihbody ih =>
    intro number body hmem
    rcases List.mem_cons.mp hmem with heq | hmem
    · exact h body (ihbody number body heq.symm)
    · exact ih number body hmem

end Arbor.Wire
