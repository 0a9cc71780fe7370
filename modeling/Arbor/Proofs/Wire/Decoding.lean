import Arbor.Wire.Record
import Mathlib.Tactic.Lemma

/-!
# The steps of decoding

Decoding a message reads one head after the other.  The lemmas here say what one step does:
a record is put in front of what the rest gives, a submessage is decoded inside a frame of
its own and put in front, a fault ends the decoding.  The last part collects what the
schema guarantees about the numbers of fields.
-/

namespace Arbor.Wire

/-! ### One step -/

/-- Skipping a group goes from tag to tag. -/
lemma skipGroup_eq (f : Frame) (depth : Nat) (bytes : Bytes) :
    skipGroup f depth bytes =
      match readTag bytes with
      | .error e => .error e
      | .ok ((_, .groupEnd), rest) =>
        if depth = 0 then .ok rest else skipGroup f (depth - 1) rest
      | .ok ((_, .groupStart), rest) =>
        if maxLevel ≤ f.level + depth then .error .tooDeep else skipGroup f (depth + 1) rest
      | .ok ((_, w), rest) =>
        match skipValue f w rest with
        | .error e => .error e
        | .ok rest => skipGroup f depth rest := by
  rw [skipGroup]
  split
  · simp only [*]
  · simp only [*]
  · simp only [*]
  · next w rest hend hstart htag =>
    rw [htag]
    cases w with
    | groupEnd => exact (hend rfl).elim
    | groupStart => exact (hstart rfl).elim
    | _ => split <;> simp only [*]

@[simp] lemma decode_nil (t : MessageType) (f : Frame) : decode t f [] = .ok [] := by
  rw [decode, if_pos rfl]

/-- There is nothing to be read without bytes. -/
lemma ne_nil_of_readHead {t : MessageType} {f : Frame} {bytes : Bytes} {head : Head}
    (h : readHead t f bytes = .ok head) : bytes ≠ [] := by
  rintro rfl
  exact absurd (length_lt_of_readHead h) (Nat.not_lt_zero _)

/-- A record, or the nothing that a group leaves, stands in front of what the rest gives. -/
lemma decode_of_record {t : MessageType} {f : Frame} {bytes rest : Bytes} {r : Option Record}
    (h : readHead t f bytes = .ok (.record r rest)) :
    decode t f bytes = (decode t f rest).map (r.toList ++ ·) := by
  rw [decode, if_neg (ne_nil_of_readHead h)]
  split
  · next h' => rw [h] at h'; cases h'
  · next h' =>
    rw [h] at h'
    cases h'
    cases decode t f rest <;> rfl
  · next h' => rw [h] at h'; cases h'

/-- A submessage is decoded by itself and stands in front of what the rest gives. -/
lemma decode_of_submessage {t u : MessageType} {f : Frame} {bytes rest : Bytes}
    {number length : Nat} {body : List Record}
    (h : readHead t f bytes = .ok (.submessage number u length rest))
    (hbody : decode u (f.inner rest length) (rest.take length) = .ok body) :
    decode t f bytes = (decode t f (rest.drop length)).map (.message number body :: ·) := by
  rw [decode, if_neg (ne_nil_of_readHead h)]
  split
  · next h' => rw [h] at h'; cases h'
  · next h' => rw [h] at h'; cases h'
  · next h' =>
    rw [h] at h'
    cases h'
    rw [hbody]
    cases decode t f (rest.drop length) <;> rfl

/-- A fault in the head of a record ends the decoding. -/
lemma decode_of_fault {t : MessageType} {f : Frame} {bytes : Bytes} {e : Fault} (hne : bytes ≠ [])
    (h : readHead t f bytes = .error e) : decode t f bytes = .error e := by
  rw [decode, if_neg hne]
  split
  · next h' =>
    rw [h] at h'
    cases h'
    rfl
  · next h' => rw [h] at h'; cases h'
  · next h' => rw [h] at h'; cases h'

/-- A fault in a submessage ends the decoding. -/
lemma decode_of_submessage_fault {t u : MessageType} {f : Frame} {bytes rest : Bytes}
    {number length : Nat} {e : Fault}
    (h : readHead t f bytes = .ok (.submessage number u length rest))
    (hbody : decode u (f.inner rest length) (rest.take length) = .error e) :
    decode t f bytes = .error e := by
  rw [decode, if_neg (ne_nil_of_readHead h)]
  split
  · next h' => rw [h] at h'; cases h'
  · next h' => rw [h] at h'; cases h'
  · next h' =>
    rw [h] at h'
    cases h'
    rw [hbody]

/-- What decoding has done if it succeeded on some bytes: it has read a record, or a submessage,
and decoded what comes behind. -/
lemma decode_cases {t : MessageType} {f : Frame} {bytes : Bytes} {rs : List Record}
    (hne : bytes ≠ []) (h : decode t f bytes = .ok rs) :
    (∃ r rest records, readHead t f bytes = .ok (.record r rest) ∧
        decode t f rest = .ok records ∧ rs = r.toList ++ records) ∨
      ∃ number u length rest body records,
        readHead t f bytes = .ok (.submessage number u length rest) ∧
        decode u (f.inner rest length) (rest.take length) = .ok body ∧
        decode t f (rest.drop length) = .ok records ∧ rs = .message number body :: records := by
  rw [decode, if_neg hne] at h
  split at h
  · cases h
  · next r rest hhead =>
    split at h
    · cases h
    · next records hrest =>
      cases h
      exact .inl ⟨r, rest, records, hhead, hrest, rfl⟩
  · next number u length rest hhead =>
    split at h
    · cases h
    · next body hbody =>
      split at h
      · cases h
      · next records hrest =>
        cases h
        exact .inr ⟨number, u, length, rest, body, records, hhead, hbody, hrest, rfl⟩

/-! ### Fields of the schema -/

/-- Whether a field of a message type holds at most one submessage. -/
def MessageType.single : MessageType → Nat → Bool
  | .method, 2 => true
  | .var, 2 => true
  | .var, 3 => true
  | .stmt, 3 => true
  | .expr, 8 => true
  | _, _ => false

/-- A field is found under its own number. -/
lemma MessageType.number_of_field? {t : MessageType} {number : Nat} {field : Field}
    (h : t.field? number = some field) : field.number = number := by
  have hp := List.find?_some h
  simpa using hp

/-- No two fields of a message type have the same number. -/
lemma MessageType.field?_number {t : MessageType} {field : Field} (h : field ∈ t.fields) :
    t.field? field.number = some field := by
  have hall : ∀ field ∈ t.fields, t.field? field.number = some field := by
    cases t <;> decide
  exact hall field h

/-- Field numbers are small and not zero. -/
lemma MessageType.number_bounds {t : MessageType} {number : Nat} {field : Field}
    (h : t.field? number = some field) : 0 < number ∧ number < 16 := by
  have hall : ∀ field ∈ t.fields, 0 < field.number ∧ field.number < 16 := by
    cases t <;> decide
  have hmem := hall field (List.mem_of_find?_eq_some h)
  rwa [MessageType.number_of_field? h] at hmem

end Arbor.Wire
