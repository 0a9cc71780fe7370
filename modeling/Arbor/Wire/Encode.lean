import Arbor.Wire.Record

/-!
# Writing records

The bytes of records, each with the shortest tag and lengths.  A stray record cannot be
written, since only its number is known.
-/

namespace Arbor.Wire

/-- A tag: a field number and a wire type. -/
def writeTag (number : Nat) (w : WireType) : Bytes :=
  writeVarint (8 * number + w.code)

/-- A length and as many bytes. -/
def writeDelimited (content : Bytes) : Bytes :=
  writeVarint content.length ++ content

/-- A signed number of 64 bits, taken as unsigned. -/
def unsigned64 (n : Int) : Nat :=
  (n % 0x10000000000000000).toNat

mutual

/-- The bytes of a record. -/
def Record.encode : Record → Bytes
  | .text number s => writeTag number .delimited ++ writeDelimited s.toUTF8.data.toList
  | .kind number tag => writeTag number .varint ++ writeVarint (unsigned64 tag)
  | .flag number b => writeTag number .varint ++ writeVarint b.toNat
  | .message number records => writeTag number .delimited ++ writeDelimited (encode records)
  | .stray _ => []

/-- The bytes of a list of records. -/
def encode : List Record → Bytes
  | [] => []
  | r :: rs => r.encode ++ encode rs

end

end Arbor.Wire
