import Arbor.Proofs.Wire.Decoding
import Arbor.Proofs.Wire.Nesting
import Arbor.Proofs.Wire.Values

/-!
# Records are read back as they were written

`decode_encode`: the bytes of a list of records decode to these records.  The records have
to belong to fields of the message type (`Record.Fits`), the messages among them must not
be nested deeper than a decoder goes (`nesting`), the bytes must end before position 2⁶⁴ and
the texts must be shorter than 2³² bytes (`longest`), which keeps all lengths within the
readers' range.

The frame around the bytes changes from message to message, so the statement is proved for
every frame that has room for the bytes.  Records are written with their full length, so
no message of theirs reaches beyond the bytes that are there.
-/

namespace Arbor.Wire

/-! ### Records that fit -/

/-- A record belongs to a field of the message type, and so do the records in it. -/
inductive Record.Fits : MessageType → Record → Prop where
  | text {t : MessageType} {number : Nat} {name : String} {s : String} :
      t.field? number = some ⟨number, name, .text⟩ → Fits t (.text number s)
  | kind {t : MessageType} {number : Nat} {name : String} {tag : Int} :
      t.field? number = some ⟨number, name, .kind⟩ → -0x80000000 ≤ tag → tag < 0x80000000 →
      Fits t (.kind number tag)
  | flag {t : MessageType} {number : Nat} {name : String} {b : Bool} :
      t.field? number = some ⟨number, name, .flag⟩ → Fits t (.flag number b)
  | message {t u : MessageType} {number : Nat} {name : String} {records : List Record} :
      t.field? number = some ⟨number, name, .message u⟩ → (∀ r ∈ records, Fits u r) →
      Fits t (.message number records)

/-! ### Heads -/

/-- A tag that fits a field makes the reader read this field. -/
lemma readHead_writeTag {t : MessageType} {number : Nat} {field : Field} (f : Frame)
    (hfield : t.field? number = some field) (rest : Bytes) :
    readHead t f (writeTag number field.type.wireType ++ rest) = readField f field rest := by
  obtain ⟨hpos, hlt⟩ := MessageType.number_bounds hfield
  rw [readHead, readTag_writeTag hpos (by omega)]
  simp only [hfield, if_true]

/-- The record of a text is read. -/
lemma readHead_text {t : MessageType} {number : Nat} {name s : String} (f : Frame)
    (hfield : t.field? number = some ⟨number, name, .text⟩)
    (hlength : s.toUTF8.data.toList.length < 0x100000000) (rest : Bytes) :
    readHead t f ((Record.text number s).encode ++ rest) =
      .ok (.record (some (.text number s)) rest) := by
  have hhead := readHead_writeTag f hfield (writeDelimited s.toUTF8.data.toList ++ rest)
  rw [Record.encode, List.append_assoc]
  refine hhead.trans ?_
  simp only [readField, readText_writeDelimited f hlength]
  rfl

/-- The record of a kind is read. -/
lemma readHead_kind {t : MessageType} {number : Nat} {name : String} {tag : Int} (f : Frame)
    (hfield : t.field? number = some ⟨number, name, .kind⟩) (hlow : -0x80000000 ≤ tag)
    (hhigh : tag < 0x80000000) (rest : Bytes) :
    readHead t f ((Record.kind number tag).encode ++ rest) =
      .ok (.record (some (.kind number tag)) rest) := by
  have hhead := readHead_writeTag f hfield (writeVarint (unsigned64 tag) ++ rest)
  rw [Record.encode, List.append_assoc]
  refine hhead.trans ?_
  simp only [readField, readKind_writeVarint hlow hhigh]
  rfl

/-- The record of a flag is read. -/
lemma readHead_flag {t : MessageType} {number : Nat} {name : String} (f : Frame)
    (hfield : t.field? number = some ⟨number, name, .flag⟩) (b : Bool) (rest : Bytes) :
    readHead t f ((Record.flag number b).encode ++ rest) =
      .ok (.record (some (.flag number b)) rest) := by
  have hhead := readHead_writeTag f hfield (writeVarint b.toNat ++ rest)
  rw [Record.encode, List.append_assoc]
  refine hhead.trans ?_
  simp only [readField, readFlag_writeVarint]
  rfl

/-- A message is announced with its length, if the frame is not nested too deep and its
positions are small. -/
lemma readHead_message {t u : MessageType} {number : Nat} {name : String} {body : List Record}
    {f : Frame} (hfield : t.field? number = some ⟨number, name, .message u⟩)
    (hlevel : f.level < maxLevel) {rest : Bytes}
    (hroom : (encode body ++ rest).length ≤ f.stop) (hstop : f.stop < 0x10000000000000000) :
    readHead t f ((Record.message number body).encode ++ rest) =
      .ok (.submessage number u (encode body).length (encode body ++ rest)) := by
  have hhead := readHead_writeTag f hfield
    (writeVarint (encode body).length ++ (encode body ++ rest))
  rw [Record.encode, writeDelimited, List.append_assoc, List.append_assoc]
  refine hhead.trans ?_
  have hroom' := hroom
  rw [List.length_append] at hroom'
  have hposition : ¬ 0x10000000000000000 ≤
      f.position (encode body ++ rest) + (encode body).length := by
    rw [Frame.position, List.length_append]
    omega
  rw [readField]
  simp only
  rw [if_neg (by omega), readVarint64_writeVarint (by omega)]
  simp only [if_neg hposition, f.exceeds_append]
  rfl

/-! ### Messages -/

/-- A text is not longer than the record it stands in. -/
lemma length_le_length_encode_text (number : Nat) (s : String) :
    s.toUTF8.data.toList.length ≤ ((Record.text number s).encode).length := by
  rw [Record.encode, writeDelimited]
  simp only [List.length_append]
  omega

/-- The records of a message are not longer than the record the message stands in. -/
lemma length_le_length_encode_message (number : Nat) (body : List Record) :
    (encode body).length ≤ ((Record.message number body).encode).length := by
  rw [Record.encode, writeDelimited]
  simp only [List.length_append]
  omega

/-- No text is longer than the bytes of all records. -/
lemma longest_le_length_encode (rs : List Record) : longest rs ≤ (encode rs).length := by
  induction rs using records_induction with
  | hnil => exact Nat.le_refl 0
  | hcons r rs ihbody ih =>
    have hfirst : r.longest ≤ r.encode.length := by
      cases r with
      | text number s => exact length_le_length_encode_text number s
      | message number body =>
        exact Nat.le_trans (ihbody number body rfl) (length_le_length_encode_message number body)
      | _ => exact Nat.zero_le _
    rw [longest, encode, List.length_append]
    omega

/-- Records that fit are decoded from their own bytes, in every frame that has room for the
bytes and for the messages among them, if the texts are not too long. -/
lemma decode_encode (rs : List Record) :
    ∀ t f, (∀ r ∈ rs, r.Fits t) → f.level + nesting rs ≤ maxLevel →
      (encode rs).length ≤ f.stop → f.stop < 0x10000000000000000 → longest rs < 0x100000000 →
      decode t f (encode rs) = .ok rs := by
  induction rs using records_induction with
  | hnil =>
    intro t f _ _ _ _ _
    rw [encode, decode_nil]
  | hcons r rs ihbody ih =>
    intro t f hfits hlevel hroom hstop hlongest
    rw [encode, List.length_append] at hroom
    rw [nesting] at hlevel
    rw [longest] at hlongest
    have hrest : decode t f (encode rs) = .ok rs :=
      ih t f (fun r' hr' => hfits r' (List.mem_cons_of_mem _ hr')) (by omega) (by omega) hstop
        (by omega)
    rw [encode]
    cases hfits r List.mem_cons_self with
    | @text _ number _ s hfield =>
      rw [Record.longest] at hlongest
      rw [decode_of_record (readHead_text f hfield (by omega) _), hrest]
      rfl
    | kind hfield hlow hhigh =>
      rw [decode_of_record (readHead_kind f hfield hlow hhigh _), hrest]
      rfl
    | flag hfield =>
      rw [decode_of_record (readHead_flag f hfield _ _), hrest]
      rfl
    | @message _ u number _ body hfield hbody =>
      have hlength := length_le_length_encode_message number body
      rw [Record.nesting] at hlevel
      rw [Record.longest] at hlongest
      have hroom' : (encode body ++ encode rs).length ≤ f.stop := by
        rw [List.length_append]
        omega
      have hhead := readHead_message hfield (by omega : f.level < maxLevel) hroom' hstop
      have hinner : decode u (f.inner (encode body ++ encode rs) (encode body).length)
          ((encode body ++ encode rs).take (encode body).length) = .ok body := by
        rw [List.take_left]
        apply ihbody number body rfl u _ hbody
        · simp only [Frame.inner]
          omega
        · simp only [Frame.inner, List.length_append]
          omega
        · simp only [Frame.inner]
          omega
        · omega
      rw [decode_of_submessage hhead hinner, List.drop_left, hrest]
      rfl

end Arbor.Wire
