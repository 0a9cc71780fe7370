import Arbor.Proofs.Wire.Layout
import Arbor.Proofs.Wire.Thinning
import Arbor.Proofs.Wire.Values

/-!
# How large decoded records can be

Writing is at least as short as anything that is read: a number, a tag or a value takes up
no more bytes when it is written than it took up where it was read.  Strays and groups are
not written at all.  So decoded records are written in at most as many bytes as they were
decoded from, and since a decoder counts the messages around it and reads the lengths of
texts with 32 bits, neither their nesting nor their texts grow without bound.

`decode_bounded` states the three bounds for every message.
-/

namespace Arbor.Wire

/-! ### Numbers -/

/-- A number is not written in more bytes than it was read from. -/
lemma length_writeVarint_le_of_readVarint {top more n : Nat} {bytes rest : Bytes}
    (htop : top < 128) (h : readVarint top more bytes = .ok (n, rest)) :
    (writeVarint n).length + rest.length ≤ bytes.length := by
  induction more generalizing bytes n with
  | zero =>
    cases bytes with
    | nil => cases h
    | cons b tail =>
      rw [readVarint] at h
      split at h
      · next hb =>
        cases h
        rw [length_writeVarint, if_pos (by omega), List.length_cons]
        omega
      · cases h
  | succ more ih =>
    cases bytes with
    | nil => cases h
    | cons b tail =>
      rw [readVarint] at h
      split at h
      · next hb =>
        cases h
        rw [length_writeVarint, if_pos hb, List.length_cons]
        omega
      · next hb =>
        split at h
        · cases h
        · next n' rest' htail =>
          cases h
          have hrest := ih htail
          have hbyte : b.toNat < 256 := b.toNat_lt
          have hdiv : (b.toNat - 128 + 128 * n') / 128 = n' := by omega
          rw [length_writeVarint, hdiv, List.length_cons]
          split <;> omega

/-- A number that is read is below the bound of its reader. -/
lemma lt_varintBound_of_readVarint {top more n : Nat} {bytes rest : Bytes}
    (h : readVarint top more bytes = .ok (n, rest)) : n < varintBound top more := by
  have hpos : ∀ more, 0 < varintBound top more := by
    intro more
    induction more with
    | zero => exact Nat.succ_pos top
    | succ more ih => exact Nat.mul_pos (by decide) ih
  induction more generalizing bytes n with
  | zero =>
    cases bytes with
    | nil => cases h
    | cons b tail =>
      rw [readVarint] at h
      split at h
      · next hb =>
        cases h
        exact Nat.lt_succ_of_le hb
      · cases h
  | succ more ih =>
    have hmore := hpos more
    rw [varintBound]
    cases bytes with
    | nil => cases h
    | cons b tail =>
      rw [readVarint] at h
      split at h
      · next hb =>
        cases h
        omega
      · split at h
        · cases h
        · next n' rest' htail =>
          cases h
          have hn' := ih htail
          have hbyte : b.toNat < 256 := b.toNat_lt
          omega

/-- A short varint is less than 2³². -/
lemma readVarint32_lt {n : Nat} {bytes rest : Bytes} (h : readVarint32 bytes = .ok (n, rest)) :
    n < 0x100000000 :=
  lt_varintBound_of_readVarint h

/-- A long varint is less than 2⁶⁴. -/
lemma readVarint64_lt {n : Nat} {bytes rest : Bytes} (h : readVarint64 bytes = .ok (n, rest)) :
    n < 0x10000000000000000 :=
  lt_varintBound_of_readVarint h

/-! ### Values -/

/-- The wire type that is found by a code has that code. -/
lemma WireType.code_of_ofCode? {c : Nat} {w : WireType} (h : ofCode? c = some w) : w.code = c := by
  unfold ofCode? at h
  split at h <;> cases h <;> rfl

/-- A tag is not written in more bytes than it was read from. -/
lemma length_writeTag_le_of_readTag {number : Nat} {w : WireType} {bytes rest : Bytes}
    (h : readTag bytes = .ok ((number, w), rest)) :
    (writeTag number w).length + rest.length ≤ bytes.length := by
  unfold readTag at h
  split at h
  · cases h
  · next tag rest' htag =>
    split at h
    · next w' hw =>
      split at h
      · cases h
      · cases h
        have hcode := WireType.code_of_ofCode? hw
        have hsame : 8 * (tag / 8) + w.code = tag := by omega
        rw [writeTag, hsame]
        exact length_writeVarint_le_of_readVarint (by decide) htag
    · cases h

/-- Bytes with a length in front are not written in more bytes than they were read from, and the
length fits 32 bits. -/
lemma bounds_of_readDelimited {f : Frame} {content bytes rest : Bytes}
    (h : readDelimited f bytes = .ok (content, rest)) :
    (writeDelimited content).length + rest.length ≤ bytes.length ∧
      content.length < 0x100000000 := by
  unfold readDelimited at h
  split at h
  · cases h
  · next length rest' hlength =>
    split at h
    · cases h
    · split at h
      · next hle =>
        cases h
        have hread := length_writeVarint_le_of_readVarint (by decide) hlength
        have hshort := readVarint32_lt hlength
        have hcontent : (rest'.take length).length = length := List.length_take_of_le hle
        rw [writeDelimited, List.length_append, hcontent, List.length_drop]
        exact ⟨by omega, hshort⟩
      · split at h <;> cases h

/-- The bytes that a text was read from are the bytes of the text. -/
lemma toUTF8_of_fromUTF8? {content : Bytes} {s : String}
    (h : String.fromUTF8? content.toByteArray = some s) : s.toUTF8.data.toList = content := by
  unfold String.fromUTF8? at h
  split at h
  · cases h
    exact List.toList_data_toByteArray
  · cases h

/-- A text is not longer in canonical form than the bytes that it was read from. -/
lemma bounds_of_readText {f : Frame} {s : String} {bytes rest : Bytes}
    (h : readText f bytes = .ok (s, rest)) :
    (writeDelimited s.toUTF8.data.toList).length + rest.length ≤ bytes.length ∧
      s.toUTF8.data.toList.length < 0x100000000 := by
  unfold readText at h
  split at h
  · cases h
  · next content rest' hcontent =>
    split at h
    · next s' hs =>
      cases h
      rw [toUTF8_of_fromUTF8? hs]
      exact bounds_of_readDelimited hcontent
    · cases h

/-- A number of 64 bits survives being taken as signed. -/
lemma unsigned64_signed64 {n : Nat} (h : n < 0x10000000000000000) :
    unsigned64 (signed64 n) = n := by
  unfold unsigned64 signed64
  split <;> omega

/-- A kind is not longer in canonical form than the bytes that it was read from. -/
lemma bounds_of_readKind {tag : Int} {bytes rest : Bytes} (h : readKind bytes = .ok (tag, rest)) :
    (writeVarint (unsigned64 tag)).length + rest.length ≤ bytes.length := by
  unfold readKind at h
  split at h
  · cases h
  · next n rest' hn =>
    dsimp only at h
    split at h
    · cases h
      rw [unsigned64_signed64 (readVarint64_lt hn)]
      exact length_writeVarint_le_of_readVarint (by decide) hn
    · cases h

/-- A flag is written in one byte. -/
lemma bounds_of_readFlag {b : Bool} {bytes rest : Bytes} (h : readFlag bytes = .ok (b, rest)) :
    (writeVarint b.toNat).length + rest.length ≤ bytes.length := by
  have hlt := length_lt_of_readFlag h
  have hone : b.toNat < 128 := Nat.lt_of_le_of_lt b.toNat_le (by decide)
  rw [length_writeVarint, if_pos hone]
  omega

/-! ### Heads -/

/-- What a head comes to when it is written, with the bytes behind it, is among the bytes that
are available.  A message is announced only where there is room for one more level. -/
inductive Head.Bounded (f : Frame) (available : Nat) : Head → Prop where
  | record {r : Option Record} {rest : Bytes} :
      (encode r.toList).length + rest.length ≤ available → nesting r.toList = 0 →
      longest r.toList < 0x100000000 → Bounded f available (.record r rest)
  | submessage {number length : Nat} {u : MessageType} {rest : Bytes} : f.level < maxLevel →
      (writeTag number .delimited).length + (writeVarint length).length + rest.length ≤
        available →
      Bounded f available (.submessage number u length rest)

/-- The value of a field takes up no more than it did, next to the tag of the field. -/
lemma readField_bounded {f : Frame} {field : Field} {bytes : Bytes} {head : Head}
    (h : readField f field bytes = .ok head) :
    head.Bounded f ((writeTag field.number field.type.wireType).length + bytes.length) := by
  unfold readField at h
  split at h
  · next htype =>
    obtain ⟨⟨s, rest⟩, htext, rfl⟩ := exists_of_map_eq_ok h
    obtain ⟨hlength, hshort⟩ := bounds_of_readText htext
    refine .record ?_ rfl ?_
    · rw [Option.toList_some, encode_singleton, Record.encode, htype, FieldType.wireType,
        List.length_append, Nat.add_assoc]
      exact Nat.add_le_add_left hlength _
    · rwa [Option.toList_some, longest_singleton, Record.longest]
  · next htype =>
    obtain ⟨⟨tag, rest⟩, hkind, rfl⟩ := exists_of_map_eq_ok h
    have hlength := bounds_of_readKind hkind
    refine .record ?_ rfl (Nat.zero_lt_succ _)
    rw [Option.toList_some, encode_singleton, Record.encode, htype, FieldType.wireType,
      List.length_append, Nat.add_assoc]
    exact Nat.add_le_add_left hlength _
  · next htype =>
    obtain ⟨⟨b, rest⟩, hflag, rfl⟩ := exists_of_map_eq_ok h
    have hlength := bounds_of_readFlag hflag
    refine .record ?_ rfl (Nat.zero_lt_succ _)
    rw [Option.toList_some, encode_singleton, Record.encode, htype, FieldType.wireType,
      List.length_append, Nat.add_assoc]
    exact Nat.add_le_add_left hlength _
  · next u htype =>
    split at h
    · cases h
    · next hlevel =>
      split at h
      · cases h
      · next length rest hlength =>
        split at h
        · cases h
        · split at h
          · cases h
          · cases h
            have hread := length_writeVarint_le_of_readVarint (by decide) hlength
            rw [htype, FieldType.wireType]
            exact .submessage (Nat.lt_of_not_le hlevel) (by omega)

/-- A record that fits no field is not written at all. -/
lemma readStray_bounded {f : Frame} {number : Nat} {w : WireType} {bytes : Bytes} {head : Head}
    (h : readStray f number w bytes = .ok head) : head.Bounded f bytes.length := by
  have hrest := length_le_of_readStray h
  obtain ⟨content, rest, -, ⟨-, rfl⟩ | ⟨-, rfl⟩⟩ := cutValue_of_readStray h
  · refine .record ?_ rfl (Nat.zero_lt_succ _)
    simpa [encode, Head.rest] using hrest
  · refine .record ?_ rfl (Nat.zero_lt_succ _)
    simpa [encode, Record.encode, Head.rest] using hrest

/-- A head that is bounded by fewer bytes is bounded by more. -/
lemma Head.Bounded.mono {f : Frame} {available available' : Nat} {head : Head}
    (h : head.Bounded f available) (hle : available ≤ available') : head.Bounded f available' := by
  cases h with
  | record hlength hnesting hlongest =>
    exact .record (Nat.le_trans hlength hle) hnesting hlongest
  | submessage hlevel hlength => exact .submessage hlevel (Nat.le_trans hlength hle)

/-- A head is bounded by the bytes that it was read from. -/
lemma readHead_bounded {t : MessageType} {f : Frame} {bytes : Bytes} {head : Head}
    (h : readHead t f bytes = .ok head) : head.Bounded f bytes.length := by
  unfold readHead at h
  split at h
  · cases h
  · next number w rest htag =>
    have htag' := length_writeTag_le_of_readTag htag
    have hrest : rest.length ≤ bytes.length := by omega
    split at h
    · next field hfield =>
      split at h
      · next hwire =>
        have hbounded := readField_bounded h
        rw [MessageType.number_of_field? hfield, hwire] at hbounded
        exact hbounded.mono htag'
      · exact (readStray_bounded h).mono hrest
    · exact (readStray_bounded h).mono hrest

/-! ### Messages -/

/-- The records of a message do not take up more than its bytes and its frame allow. -/
structure Bounded (f : Frame) (bytes : Bytes) (rs : List Record) : Prop where
  length : (encode rs).length ≤ bytes.length
  nesting : f.level + nesting rs ≤ maxLevel
  longest : longest rs < 0x100000000

/-- No message is around the outermost one. -/
lemma Bounded.nesting_le {bytes : Bytes} {rs : List Record}
    (h : Bounded (.outermost bytes) bytes rs) : Wire.nesting rs ≤ maxLevel := by
  simpa [Frame.outermost] using h.nesting

/-- What is left of records takes up no more than they did. -/
lemma Bounded.thinned {f : Frame} {bytes : Bytes} {rs' rs : List Record} (h : Bounded f bytes rs)
    (hthinned : Thinned rs' rs) : Bounded f bytes rs' where
  length := Nat.le_trans hthinned.length_encode_le h.length
  nesting := Nat.le_trans (Nat.add_le_add_left hthinned.nesting_le _) h.nesting
  longest := Nat.lt_of_le_of_lt hthinned.longest_le h.longest

/-- Decoded records are written in at most as many bytes as they were decoded from, they nest
messages at most as deep as a decoder goes, and their texts are shorter than 2³² bytes. -/
theorem decode_bounded {t : MessageType} {f : Frame} {bytes : Bytes} {rs : List Record}
    (h : decode t f bytes = .ok rs) (hlevel : f.level ≤ maxLevel) : Bounded f bytes rs := by
  fun_induction decode t f bytes generalizing rs with
  | case1 =>
    cases h
    exact ⟨Nat.le_refl 0, hlevel, by decide⟩
  | case4 t f bytes _ r rest hhead records hrest ih =>
    cases h
    obtain ⟨hlength, hnesting, hlongest⟩ | _ := readHead_bounded hhead
    have hbehind := ih hrest hlevel
    have hbytes := hbehind.length
    have hdeep := hbehind.nesting
    have htexts := hbehind.longest
    refine ⟨?_, ?_, ?_⟩
    · rw [encode_append, List.length_append]
      omega
    · rw [nesting_append, hnesting]
      omega
    · rw [longest_append]
      omega
  | case7 t f bytes _ number u length rest hhead body hbody records hrest ihbody ih =>
    cases h
    obtain _ | ⟨hroom, hlength⟩ := readHead_bounded hhead
    have hinside := ihbody hbody hroom
    have hbehind := ih hrest hlevel
    have hbytes := hbehind.length
    have hdeep := hbehind.nesting
    have htexts := hbehind.longest
    have hbytes' := hinside.length
    have hdeep' := hinside.nesting
    have htexts' := hinside.longest
    refine ⟨?_, ?_, ?_⟩
    · -- The length that was announced may be larger than the message turned out to be.
      rw [List.length_take] at hbytes'
      rw [List.length_drop] at hbytes
      have hvarint : (writeVarint (encode body).length).length ≤ (writeVarint length).length :=
        length_writeVarint_mono (by omega)
      rw [encode, Record.encode, writeDelimited]
      simp only [List.length_append]
      omega
    · simp only [Frame.inner] at hdeep'
      rw [Wire.nesting, Record.nesting]
      omega
    · rw [Wire.longest, Record.longest]
      omega
  | _ => cases h

end Arbor.Wire
