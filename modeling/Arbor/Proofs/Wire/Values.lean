import Arbor.Wire.Encode
import Mathlib.Tactic.Lemma

/-!
# Values are read back as they were written

For each kind of value, reading what was written, with any bytes behind it, gives the value
and leaves those bytes.  The conditions are those of the format: a number must fit the
reader, a length must fit 32 bits, a kind tag must be a signed number of 32 bits.
-/

namespace Arbor.Wire

/-! ### Numbers of variable length -/

/-- The least number that is too large for a reader of at most `more + 1` bytes, where a
byte in the last place is at most `top`. -/
def varintBound (top : Nat) : (more : Nat) → Nat
  | 0 => top + 1
  | more + 1 => 128 * varintBound top more

/-- A number that fits the reader is read back. -/
lemma readVarint_writeVarint {top more n : Nat} (htop : top < 128) (hn : n < varintBound top more)
    (rest : Bytes) : readVarint top more (writeVarint n ++ rest) = .ok (n, rest) := by
  induction more generalizing n with
  | zero =>
    have hle : n ≤ top := Nat.lt_succ_iff.mp hn
    have hbyte : (UInt8.ofNat n).toNat = n := by
      rw [UInt8.toNat_ofNat']
      omega
    rw [writeVarint, if_pos (by omega), List.singleton_append, readVarint, hbyte, if_pos hle]
  | succ more ih =>
    rw [writeVarint]
    by_cases hsmall : n < 128
    · have hbyte : (UInt8.ofNat n).toNat = n := by
        rw [UInt8.toNat_ofNat']
        omega
      rw [if_pos hsmall, List.singleton_append, readVarint, hbyte, if_pos hsmall]
    · have hbyte : (UInt8.ofNat (n % 128 + 128)).toNat = n % 128 + 128 := by
        rw [UInt8.toNat_ofNat']
        omega
      have hrest : n / 128 < varintBound top more := by
        rw [varintBound] at hn
        omega
      rw [if_neg hsmall, List.cons_append, readVarint, hbyte, if_neg (by omega), ih hrest]
      have hsum : n % 128 + 128 - 128 + 128 * (n / 128) = n := by omega
      simp only [hsum]

/-- A number below 2³² is read as a short varint. -/
lemma readVarint32_writeVarint {n : Nat} (hn : n < 0x100000000) (rest : Bytes) :
    readVarint32 (writeVarint n ++ rest) = .ok (n, rest) :=
  readVarint_writeVarint (by decide) hn rest

/-- A number below 2⁶⁴ is read as a long varint. -/
lemma readVarint64_writeVarint {n : Nat} (hn : n < 0x10000000000000000) (rest : Bytes) :
    readVarint64 (writeVarint n ++ rest) = .ok (n, rest) :=
  readVarint_writeVarint (by decide) hn rest

/-! ### Tags, lengths and texts -/

/-- The code of a wire type takes three bits. -/
lemma WireType.code_lt (w : WireType) : w.code < 8 := by
  cases w <;> decide

/-- A tag is read back if its number is neither zero nor too large for 29 bits. -/
lemma readTag_writeTag {number : Nat} {w : WireType} (hpos : 0 < number)
    (hlt : number < 0x20000000) (rest : Bytes) :
    readTag (writeTag number w ++ rest) = .ok ((number, w), rest) := by
  have hcode : w.code < 8 := w.code_lt
  have hmod : (8 * number + w.code) % 8 = w.code := by omega
  have hdiv : (8 * number + w.code) / 8 = number := by omega
  rw [readTag, writeTag, readVarint32_writeVarint (by omega)]
  simp only [hmod, hdiv, WireType.ofCode?_code]
  rw [if_neg (by omega)]

/-- A value does not go beyond the end of the message if its bytes are all there. -/
lemma Frame.exceeds_append (f : Frame) (content rest : Bytes) :
    f.exceeds (content ++ rest) content.length = false := by
  unfold exceeds
  cases f.beyond with
  | none => rfl
  | some b =>
    rw [List.length_append, decide_eq_false_iff_not]
    omega

/-- Bytes with their length in front are read back. -/
lemma readDelimited_writeDelimited (f : Frame) {content : Bytes}
    (hlength : content.length < 0x100000000) (rest : Bytes) :
    readDelimited f (writeDelimited content ++ rest) = .ok (content, rest) := by
  rw [readDelimited, writeDelimited, List.append_assoc, readVarint32_writeVarint hlength]
  have hle : content.length ≤ (content ++ rest).length := by
    rw [List.length_append]
    omega
  simp only [f.exceeds_append, if_pos hle, List.take_left, List.drop_left]
  rfl

/-- The bytes of a text are UTF-8 and give the text back. -/
lemma fromUTF8?_toUTF8 (s : String) :
    String.fromUTF8? s.toUTF8.data.toList.toByteArray = some s := by
  have hbytes : s.toUTF8.data.toList.toByteArray = s.toByteArray := by
    apply ByteArray.ext
    rw [List.data_toByteArray, Array.toArray_toList]
    rfl
  rw [String.fromUTF8?, hbytes, dif_pos s.isValidUTF8]
  rfl

/-- A text is read back. -/
lemma readText_writeDelimited (f : Frame) {s : String}
    (hlength : s.toUTF8.data.toList.length < 0x100000000) (rest : Bytes) :
    readText f (writeDelimited s.toUTF8.data.toList ++ rest) = .ok (s, rest) := by
  rw [readText, readDelimited_writeDelimited f hlength]
  simp only [fromUTF8?_toUTF8]

/-! ### Kind tags and flags -/

/-- A signed number of 32 bits survives being written as an unsigned number of 64 bits. -/
lemma signed64_unsigned64 {n : Int} (hlow : -0x80000000 ≤ n) (hhigh : n < 0x80000000) :
    signed64 (unsigned64 n) = n := by
  unfold signed64 unsigned64
  split <;> omega

/-- A kind tag is read back. -/
lemma readKind_writeVarint {tag : Int} (hlow : -0x80000000 ≤ tag) (hhigh : tag < 0x80000000)
    (rest : Bytes) : readKind (writeVarint (unsigned64 tag) ++ rest) = .ok (tag, rest) := by
  have hfits : unsigned64 tag < 0x10000000000000000 := by
    unfold unsigned64
    omega
  rw [readKind, readVarint64_writeVarint hfits]
  simp only [signed64_unsigned64 hlow hhigh]
  rw [if_pos ⟨hlow, hhigh⟩]

/-- A flag is read back. -/
lemma readFlag_writeVarint (b : Bool) (rest : Bytes) :
    readFlag (writeVarint b.toNat ++ rest) = .ok (b, rest) := by
  have hfits : b.toNat < 0x10000000000000000 := by
    cases b <;> decide
  rw [readFlag, readVarint64_writeVarint hfits]
  cases b <;> rfl

end Arbor.Wire
