import Arbor.Proofs.Wire.Nesting
import Arbor.Wire.Encode
import Mathlib.Data.List.Flatten
import Mathlib.Data.List.Forall2
import Mathlib.Data.List.Perm.Basic
import Mathlib.Data.List.Perm.Subperm

/-!
# Thinned records

Records are thinned by dropping some of them, also inside messages, and by putting the
others into another order.  What is left is written in no more bytes, nests messages no
deeper and has no longer texts than the records had before (`Thinned.length_encode_le`,
`Thinned.nesting_le`, `Thinned.longest_le`).

The records of a message in canonical form are collected field by field.  The last part
serves to show that such a collection is thinned: what is collected for one more field comes
from records that have not been used for the fields before (`Thinned.next`).
-/

namespace Arbor.Wire

/-- `Thinned rs' rs`: the records `rs'` are left if some of the records `rs`, and some of those
inside messages, are dropped and the others are rearranged. -/
inductive Thinned : List Record → List Record → Prop where
  | subperm {rs' rs : List Record} : rs'.Subperm rs → Thinned rs' rs
  | message (number : Nat) {body' body : List Record} :
      Thinned body' body → Thinned [.message number body'] [.message number body]
  | append {rs₁' rs₁ rs₂' rs₂ : List Record} :
      Thinned rs₁' rs₁ → Thinned rs₂' rs₂ → Thinned (rs₁' ++ rs₂') (rs₁ ++ rs₂)
  | trans {rs₁ rs₂ rs₃ : List Record} : Thinned rs₁ rs₂ → Thinned rs₂ rs₃ → Thinned rs₁ rs₃

namespace Thinned

/-- Records are thinned from themselves. -/
lemma refl (rs : List Record) : Thinned rs rs :=
  .subperm (.refl rs)

/-- No records are thinned from any. -/
lemma nil (rs : List Record) : Thinned [] rs :=
  .subperm List.nil_subperm

/-- Some of the records are thinned from all of them. -/
lemma of_sublist {rs' rs : List Record} (h : rs'.Sublist rs) : Thinned rs' rs :=
  .subperm h.subperm

/-- Messages in a list may be thinned one by one. -/
lemma messages (number : Nat) {α β : Type} {f : α → List Record} {g : β → List Record}
    {as : List α} {bs : List β} (h : List.Forall₂ (fun a b => Thinned (g b) (f a)) as bs) :
    Thinned (bs.map fun b => .message number (g b)) (as.map fun a => .message number (f a)) := by
  induction h with
  | nil => exact .refl []
  | cons hab _ ih => exact .append (.message number hab) ih

end Thinned

/-! ### What thinning does to bytes, nesting and texts -/

/-- Records are written one after the other. -/
lemma encode_eq_flatMap (rs : List Record) : encode rs = rs.flatMap Record.encode := by
  induction rs with
  | nil => rfl
  | cons r rs ih => rw [encode, ih, List.flatMap_cons]

/-- The bytes of two lists of records are put together. -/
lemma encode_append (rs rs' : List Record) : encode (rs ++ rs') = encode rs ++ encode rs' := by
  rw [encode_eq_flatMap, encode_eq_flatMap, encode_eq_flatMap, List.flatMap_append]

/-- A list of one record has the bytes of the record. -/
lemma encode_singleton (r : Record) : encode [r] = r.encode := by
  rw [encode, encode, List.append_nil]

/-- Two lists of records nest as deep as the deeper of them. -/
lemma nesting_append (rs rs' : List Record) :
    nesting (rs ++ rs') = max (nesting rs) (nesting rs') := by
  induction rs with
  | nil => simp [nesting]
  | cons r rs ih => rw [List.cons_append, nesting, nesting, ih, Nat.max_assoc]

/-- A list of one record nests as deep as the record. -/
lemma nesting_singleton (r : Record) : nesting [r] = r.nesting := by
  simp [nesting]

/-- The longest content in two lists of records is that in one of them. -/
lemma longest_append (rs rs' : List Record) :
    longest (rs ++ rs') = max (longest rs) (longest rs') := by
  induction rs with
  | nil => simp [longest]
  | cons r rs ih => rw [List.cons_append, longest, longest, ih, Nat.max_assoc]

/-- The longest content in a list of one record is that in the record. -/
lemma longest_singleton (r : Record) : longest [r] = r.longest := by
  simp [longest]

/-- A number takes one byte for every seven binary digits. -/
lemma length_writeVarint (n : Nat) :
    (writeVarint n).length = if n < 128 then 1 else (writeVarint (n / 128)).length + 1 := by
  rw [writeVarint]
  split <;> rfl

/-- A smaller number is not written in more bytes. -/
lemma length_writeVarint_mono {m n : Nat} (h : m ≤ n) :
    (writeVarint m).length ≤ (writeVarint n).length := by
  induction n using Nat.strongRecOn generalizing m with
  | ind n ih =>
    rw [length_writeVarint m, length_writeVarint n]
    by_cases hm : m < 128
    · rw [if_pos hm]
      split <;> omega
    · have hn : ¬ n < 128 := by omega
      have hrest : (writeVarint (m / 128)).length ≤ (writeVarint (n / 128)).length :=
        ih (n / 128) (by omega) (by omega)
      rw [if_neg hm, if_neg hn]
      exact Nat.add_le_add_right hrest 1

namespace Thinned

variable {rs' rs : List Record}

/-- Thinned records are written in no more bytes. -/
lemma length_encode_le (h : Thinned rs' rs) : (encode rs').length ≤ (encode rs).length := by
  induction h with
  | subperm h =>
    obtain ⟨l, hperm, hsub⟩ := h
    have hsame := (hperm.flatMap fun r _ => List.Perm.refl r.encode).length_eq
    have hless := (hsub.flatMap Record.encode).length_le
    rw [encode_eq_flatMap, encode_eq_flatMap, ← hsame]
    exact hless
  | message number _ ih =>
    -- A shorter message also has a length that is written in no more bytes.
    have hlength := length_writeVarint_mono ih
    rw [encode_singleton, encode_singleton, Record.encode, Record.encode, writeDelimited,
      writeDelimited]
    simp only [List.length_append]
    omega
  | append _ _ ih₁ ih₂ =>
    rw [encode_append, encode_append, List.length_append, List.length_append]
    exact Nat.add_le_add ih₁ ih₂
  | trans _ _ ih₁ ih₂ => exact Nat.le_trans ih₁ ih₂

/-- Thinned records nest messages no deeper. -/
lemma nesting_le (h : Thinned rs' rs) : nesting rs' ≤ nesting rs := by
  induction h with
  | @subperm rs' rs h =>
    have hall := nesting_le_iff.mp (Nat.le_refl (nesting rs))
    exact nesting_le_iff.mpr fun r hr => hall r (h.subset hr)
  | message number _ ih =>
    rw [nesting_singleton, nesting_singleton, Record.nesting, Record.nesting]
    exact Nat.add_le_add_right ih 1
  | append _ _ ih₁ ih₂ =>
    rw [nesting_append, nesting_append]
    omega
  | trans _ _ ih₁ ih₂ => exact Nat.le_trans ih₁ ih₂

/-- Thinned records have no longer texts. -/
lemma longest_le (h : Thinned rs' rs) : longest rs' ≤ longest rs := by
  induction h with
  | @subperm rs' rs h =>
    have hall := longest_le_iff.mp (Nat.le_refl (longest rs))
    exact longest_le_iff.mpr fun r hr => hall r (h.subset hr)
  | message number _ ih =>
    rw [longest_singleton, longest_singleton, Record.longest, Record.longest]
    exact ih
  | append _ _ ih₁ ih₂ =>
    rw [longest_append, longest_append]
    omega
  | trans _ _ ih₁ ih₂ => exact Nat.le_trans ih₁ ih₂

end Thinned

/-! ### Collecting records by number -/

/-- The number of a record. -/
def Record.number : Record → Nat
  | .text number _ => number
  | .kind number _ => number
  | .flag number _ => number
  | .message number _ => number
  | .stray number => number

/-- The records with the given number. -/
def having (number : Nat) (rs : List Record) : List Record :=
  rs.filter (·.number == number)

/-- The records with the given number or a smaller one. -/
def upTo (number : Nat) (rs : List Record) : List Record :=
  rs.filter (·.number ≤ number)

/-- The records up to a number are those up to the number before and those with the number. -/
lemma perm_upTo_succ (number : Nat) (rs : List Record) :
    (upTo number rs ++ having (number + 1) rs).Perm (upTo (number + 1) rs) := by
  have hbefore : (upTo (number + 1) rs).filter (·.number ≤ number) = upTo number rs := by
    unfold upTo
    rw [List.filter_filter]
    refine List.filter_congr fun r _ => ?_
    rw [← Bool.decide_and, decide_eq_decide]
    omega
  have hlast : (upTo (number + 1) rs).filter (fun r => !decide (r.number ≤ number)) =
      having (number + 1) rs := by
    unfold upTo having
    rw [List.filter_filter]
    refine List.filter_congr fun r _ => ?_
    rw [← decide_not, ← Bool.decide_and, Bool.eq_iff_iff, decide_eq_true_iff, beq_iff_eq]
    omega
  have hperm := List.filter_append_perm (fun r : Record => decide (r.number ≤ number))
    (upTo (number + 1) rs)
  rwa [hbefore, hlast] at hperm

namespace Thinned

variable {segment segment' rs : List Record} {number : Nat}

/-- What is collected for the first field. -/
lemma first (h : Thinned segment (having 1 rs)) : Thinned segment (upTo 1 rs) :=
  h.trans <| (of_sublist (List.sublist_append_right _ _)).trans
    (.subperm (perm_upTo_succ 0 rs).subperm)

/-- What is collected for the next field takes nothing from the fields before. -/
lemma next (h : Thinned segment (upTo number rs))
    (h' : Thinned segment' (having (number + 1) rs)) :
    Thinned (segment ++ segment') (upTo (number + 1) rs) :=
  (h.append h').trans (.subperm (perm_upTo_succ number rs).subperm)

/-- What is collected for some fields is thinned. -/
lemma whole (h : Thinned segment (upTo number rs)) : Thinned segment rs :=
  h.trans (of_sublist List.filter_sublist)

end Thinned

end Arbor.Wire
