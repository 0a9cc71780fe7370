/-!
# Faults of serialized data

The reasons for which a string of bytes is not a serialized message.
-/

namespace Arbor.Wire

/-- Serialized data, as a string of bytes. -/
abbrev Bytes := List UInt8

/-- Why bytes cannot be decoded. -/
inductive Fault where
  /-- The bytes end inside a value. -/
  | unexpectedEnd
  /-- A group ends that was never begun. -/
  | unexpectedWireType
  /-- A tag with field number zero or an undefined wire type. -/
  | badTag
  /-- A variable-length number that is too long or too large. -/
  | badVarint
  /-- A text that is not UTF-8. -/
  | badText
  /-- Messages or groups are nested too deep. -/
  | tooDeep
  /-- A value is longer than the message around it. -/
  | truncated
  /-- The end of a message lies beyond every possible position. -/
  | limitOverflow
  /-- A message is longer than the message around it. -/
  | limitExceeded
  /-- A kind tag that does not fit 32 bits. -/
  | outOfRange (value : Int)
  deriving DecidableEq, Inhabited

/-- The text of a fault. -/
def Fault.message : Fault → String
  | unexpectedEnd => "Unexpected EOF"
  | unexpectedWireType => "Unexpected wire type"
  | badTag => "Incorrect tag"
  | badVarint => "Incorrect varint"
  | badText => "Invalid UTF-8 sequence"
  | tooDeep => "Over recursion limit"
  | truncated => "Truncated message"
  | limitOverflow => "Limit overflow"
  | limitExceeded => "New limit must not be greater than current limit"
  | outOfRange value => s!"Value too large for i32: {value}"

end Arbor.Wire
