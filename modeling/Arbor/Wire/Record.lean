import Arbor.Wire.Schema
import Arbor.Wire.Varint

/-!
# Records

A serialized message is a sequence of records, each a tag and a value.  A tag gives a
field number and a wire type.  A record whose number and wire type fit a field of the
message type is read as that field; any other record is skipped, and only its number is
remembered.  Groups are skipped without a trace.

The bytes of a message are read inside a `Frame`, which says where the message has to
end.  The end may lie beyond the last byte there is: a message whose bytes run out at the
end of a record is complete.

## Main declarations

* `Record`: what is read from a record.
* `Frame`: the surroundings of the bytes at hand.
* `decode`: the records of a message of a given type.
-/

namespace Arbor.Wire

/-- What is read from a record of a message. -/
inductive Record where
  | text (number : Nat) (value : String)
  | kind (number : Nat) (tag : Int)
  | flag (number : Nat) (value : Bool)
  | message (number : Nat) (records : List Record)
  /-- A record that fits no field: its number may still belong to a field of another
  wire type. -/
  | stray (number : Nat)
  deriving Inhabited

/-- How deep messages and groups may be nested below the outermost message. -/
def maxLevel : Nat := 100

/-- From this length on, a value that is too long counts as truncated, even if no limit
is known. -/
def bulkLength : Nat := 10000000

/-- Where the bytes at hand stand in the whole input. -/
structure Frame where
  /-- The position behind the last byte at hand. -/
  stop : Nat
  /-- How far beyond that position the end of the message lies; none for a message that
  ends with the input. -/
  beyond : Option Nat := none
  /-- The number of messages around this one. -/
  level : Nat := 0
  deriving DecidableEq, Inhabited

namespace Frame

/-- The frame of the outermost message. -/
def outermost (bytes : Bytes) : Frame :=
  { stop := bytes.length }

/-- The position of the first of the remaining bytes. -/
def position (f : Frame) (rest : Bytes) : Nat :=
  f.stop - rest.length

/-- Whether a value of the given length, starting at the remaining bytes, goes beyond the
end of the message. -/
def exceeds (f : Frame) (rest : Bytes) (length : Nat) : Bool :=
  match f.beyond with
  | some b => rest.length + b < length
  | none => false

/-- The frame of a message of the given length inside this one. -/
def inner (f : Frame) (rest : Bytes) (length : Nat) : Frame where
  stop := f.stop - (rest.length - length)
  beyond := some (length - rest.length)
  level := f.level + 1

end Frame

/-! ### Values -/

/-- Read a tag: a field number and a wire type. -/
def readTag (bytes : Bytes) : Except Fault ((Nat × WireType) × Bytes) :=
  match readVarint32 bytes with
  | .error e => .error e
  | .ok (tag, rest) =>
    match WireType.ofCode? (tag % 8) with
    | some w => if tag / 8 = 0 then .error .badTag else .ok ((tag / 8, w), rest)
    | none => .error .badTag

/-- Read a length and as many bytes. -/
def readDelimited (f : Frame) (bytes : Bytes) : Except Fault (Bytes × Bytes) :=
  match readVarint32 bytes with
  | .error e => .error e
  | .ok (length, rest) =>
    if f.exceeds rest length then .error .truncated
    else if length ≤ rest.length then .ok (rest.take length, rest.drop length)
    else if bulkLength ≤ length then .error .truncated
    else .error .unexpectedEnd

/-- Read a text. -/
def readText (f : Frame) (bytes : Bytes) : Except Fault (String × Bytes) :=
  match readDelimited f bytes with
  | .error e => .error e
  | .ok (content, rest) =>
    match String.fromUTF8? content.toByteArray with
    | some s => .ok (s, rest)
    | none => .error .badText

/-- A number of 64 bits, taken as signed. -/
def signed64 (n : Nat) : Int :=
  if n < 0x8000000000000000 then n else (n : Int) - 0x10000000000000000

/-- Read a kind tag, a signed number of 32 bits written as one of 64. -/
def readKind (bytes : Bytes) : Except Fault (Int × Bytes) :=
  match readVarint64 bytes with
  | .error e => .error e
  | .ok (n, rest) =>
    let value := signed64 n
    if -0x80000000 ≤ value ∧ value < 0x80000000 then .ok (value, rest)
    else .error (.outOfRange value)

/-- Read a flag: every number but zero is true. -/
def readFlag (bytes : Bytes) : Except Fault (Bool × Bytes) :=
  match readVarint64 bytes with
  | .error e => .error e
  | .ok (n, rest) => .ok (n != 0, rest)

/-- Drop a given number of bytes. -/
def skipBytes (count : Nat) (bytes : Bytes) : Except Fault Bytes :=
  if count ≤ bytes.length then .ok (bytes.drop count) else .error .unexpectedEnd

/-- Skip a value inside a group. -/
def skipValue (f : Frame) : WireType → Bytes → Except Fault Bytes
  | .fixed64, bytes => skipBytes 8 bytes
  | .fixed32, bytes => skipBytes 4 bytes
  | .delimited, bytes =>
    match readVarint32 bytes with
    | .error e => .error e
    | .ok (length, rest) =>
      if f.exceeds rest length then .error .truncated else skipBytes length rest
  | _, bytes => (readVarint64 bytes).map (·.2)

/-- Reading a tag takes at least one byte. -/
theorem length_lt_of_readTag {r : Nat × WireType} {bytes rest : Bytes}
    (h : readTag bytes = .ok (r, rest)) : rest.length < bytes.length := by
  simp only [readTag] at h
  split at h
  · cases h
  · rename_i tag rest' h'
    split at h
    · split at h
      · cases h
      · cases h
        exact length_lt_of_readVarint32 h'
    · cases h

/-- Reading delimited content takes at least the byte of its length. -/
theorem length_lt_of_readDelimited {f : Frame} {content bytes rest : Bytes}
    (h : readDelimited f bytes = .ok (content, rest)) : rest.length < bytes.length := by
  simp only [readDelimited] at h
  split at h
  · cases h
  · rename_i length rest' h'
    have := length_lt_of_readVarint32 h'
    split at h
    · cases h
    · split at h
      · cases h
        rw [List.length_drop]
        omega
      · split at h <;> cases h

/-- Reading a text takes at least the byte of its length. -/
theorem length_lt_of_readText {f : Frame} {s : String} {bytes rest : Bytes}
    (h : readText f bytes = .ok (s, rest)) : rest.length < bytes.length := by
  simp only [readText] at h
  split at h
  · cases h
  · rename_i content rest' h'
    split at h
    · cases h
      exact length_lt_of_readDelimited h'
    · cases h

/-- Reading a kind takes at least one byte. -/
theorem length_lt_of_readKind {n : Int} {bytes rest : Bytes}
    (h : readKind bytes = .ok (n, rest)) : rest.length < bytes.length := by
  simp only [readKind] at h
  split at h
  · cases h
  · rename_i n' rest' h'
    split at h
    · cases h
      exact length_lt_of_readVarint64 h'
    · cases h

/-- Reading a flag takes at least one byte. -/
theorem length_lt_of_readFlag {b : Bool} {bytes rest : Bytes}
    (h : readFlag bytes = .ok (b, rest)) : rest.length < bytes.length := by
  simp only [readFlag] at h
  split at h
  · cases h
  · rename_i n rest' h'
    cases h
    exact length_lt_of_readVarint64 h'

/-- Skipping bytes adds none; none are skipped if their count is zero. -/
theorem length_le_of_skipBytes {count : Nat} {bytes rest : Bytes}
    (h : skipBytes count bytes = .ok rest) : rest.length ≤ bytes.length := by
  simp only [skipBytes] at h
  split at h
  · cases h
    simp
  · cases h

/-- Skipping a value adds no bytes. -/
theorem length_le_of_skipValue {f : Frame} {w : WireType} {bytes rest : Bytes}
    (h : skipValue f w bytes = .ok rest) : rest.length ≤ bytes.length := by
  unfold skipValue at h
  split at h
  · exact length_le_of_skipBytes h
  · exact length_le_of_skipBytes h
  · split at h
    · cases h
    · rename_i length rest' h'
      have := length_lt_of_readVarint32 h'
      split at h
      · cases h
      · have := length_le_of_skipBytes h
        omega
  · cases h' : readVarint64 bytes with
    | error e => simp [h', Except.map] at h
    | ok r =>
      obtain ⟨n, rest'⟩ := r
      simp only [h', Except.map, Except.ok.injEq] at h
      subst h
      exact Nat.le_of_lt (length_lt_of_readVarint64 h')

/-! ### Groups -/

/-- Skip a group up to its end.  `depth` counts the groups opened inside it and not yet
closed; the field numbers at the two ends of a group need not agree. -/
def skipGroup (f : Frame) (depth : Nat) (bytes : Bytes) : Except Fault Bytes :=
  match h : readTag bytes with
  | .error e => .error e
  | .ok ((_, .groupEnd), rest) => if depth = 0 then .ok rest else skipGroup f (depth - 1) rest
  | .ok ((_, .groupStart), rest) =>
    if maxLevel ≤ f.level + depth then .error .tooDeep else skipGroup f (depth + 1) rest
  | .ok ((_, w), rest) =>
    match _h' : skipValue f w rest with
    | .error e => .error e
    | .ok rest => skipGroup f depth rest
termination_by bytes.length
decreasing_by
  · exact length_lt_of_readTag h
  · exact length_lt_of_readTag h
  · have := length_lt_of_readTag h
    have := length_le_of_skipValue _h'
    omega

/-- Skipping a group takes at least the tag at its end. -/
theorem length_lt_of_skipGroup {f : Frame} {depth : Nat} {bytes rest : Bytes}
    (h : skipGroup f depth bytes = .ok rest) : rest.length < bytes.length := by
  fun_induction skipGroup f depth bytes with
  | case1 => cases h
  | case2 bytes n rest' h' =>
    cases h
    exact length_lt_of_readTag h'
  | case3 depth bytes n rest' h' _ ih => exact Nat.lt_trans (ih h) (length_lt_of_readTag h')
  | case4 => cases h
  | case5 depth bytes n rest' h' _ ih => exact Nat.lt_trans (ih h) (length_lt_of_readTag h')
  | case6 => cases h
  | case7 depth bytes n w rest' _ _ h' rest'' h'' ih =>
    have := length_lt_of_readTag h'
    have := length_le_of_skipValue h''
    have := ih h
    omega

/-! ### Messages -/

/-- What the next bytes of a message begin with. -/
inductive Head where
  /-- A whole record; a group leaves none. -/
  | record (r : Option Record) (rest : Bytes)
  /-- The tag and length of a field that holds a message. -/
  | submessage (number : Nat) (type : MessageType) (length : Nat) (rest : Bytes)

/-- What remains behind the head. -/
def Head.rest : Head → Bytes
  | record _ rest => rest
  | submessage _ _ _ rest => rest

/-- Read a record that fits no field. -/
def readStray (f : Frame) (number : Nat) : WireType → Bytes → Except Fault Head
  | .groupStart, bytes => (skipGroup f 0 bytes).map fun rest => .record none rest
  | .groupEnd, _ => .error .unexpectedWireType
  | .delimited, bytes => (readDelimited f bytes).map fun r => .record (some (.stray number)) r.2
  | w, bytes => (skipValue f w bytes).map fun rest => .record (some (.stray number)) rest

/-- Read the value of a field, or only the length of it if it is a message. -/
def readField (f : Frame) (field : Field) (bytes : Bytes) : Except Fault Head :=
  match field.type with
  | .text => (readText f bytes).map fun r => .record (some (.text field.number r.1)) r.2
  | .kind => (readKind bytes).map fun r => .record (some (.kind field.number r.1)) r.2
  | .flag => (readFlag bytes).map fun r => .record (some (.flag field.number r.1)) r.2
  | .message type =>
    if maxLevel ≤ f.level then .error .tooDeep
    else
      match readVarint64 bytes with
      | .error e => .error e
      | .ok (length, rest) =>
        if 0x10000000000000000 ≤ f.position rest + length then .error .limitOverflow
        else if f.exceeds rest length then .error .limitExceeded
        else .ok (.submessage field.number type length rest)

/-- Read what a message of the given type begins with. -/
def readHead (t : MessageType) (f : Frame) (bytes : Bytes) : Except Fault Head :=
  match readTag bytes with
  | .error e => .error e
  | .ok ((number, w), rest) =>
    match t.field? number with
    | some field =>
      if field.type.wireType = w then readField f field rest else readStray f number w rest
    | none => readStray f number w rest

/-- A result that was given another form was a result before. -/
theorem exists_of_map_eq_ok {ε α β : Type} {g : α → β} {x : Except ε α} {b : β}
    (h : x.map g = .ok b) : ∃ a, x = .ok a ∧ g a = b := by
  cases x with
  | error e => simp [Except.map] at h
  | ok a => exact ⟨a, rfl, by simpa [Except.map] using h⟩

/-- Reading a stray behind its tag adds no bytes. -/
theorem length_le_of_readStray {f : Frame} {number : Nat} {w : WireType} {bytes : Bytes}
    {head : Head} (h : readStray f number w bytes = .ok head) :
    head.rest.length ≤ bytes.length := by
  unfold readStray at h
  split at h
  · obtain ⟨rest, h', rfl⟩ := exists_of_map_eq_ok h
    exact Nat.le_of_lt (length_lt_of_skipGroup h')
  · cases h
  · obtain ⟨r, h', rfl⟩ := exists_of_map_eq_ok h
    exact Nat.le_of_lt (length_lt_of_readDelimited h')
  · obtain ⟨rest, h', rfl⟩ := exists_of_map_eq_ok h
    exact length_le_of_skipValue h'

/-- Reading the value of a field takes at least one byte. -/
theorem length_lt_of_readField {f : Frame} {field : Field} {bytes : Bytes} {head : Head}
    (h : readField f field bytes = .ok head) : head.rest.length < bytes.length := by
  unfold readField at h
  split at h
  · obtain ⟨r, h', rfl⟩ := exists_of_map_eq_ok h
    exact length_lt_of_readText h'
  · obtain ⟨r, h', rfl⟩ := exists_of_map_eq_ok h
    exact length_lt_of_readKind h'
  · obtain ⟨r, h', rfl⟩ := exists_of_map_eq_ok h
    exact length_lt_of_readFlag h'
  · split at h
    · cases h
    · split at h
      · cases h
      · rename_i length rest h'
        split at h
        · cases h
        · split at h
          · cases h
          · cases h
            exact length_lt_of_readVarint64 h'

/-- Reading the head of a record takes at least its tag, so that decoding comes to an end. -/
theorem length_lt_of_readHead {t : MessageType} {f : Frame} {bytes : Bytes} {head : Head}
    (h : readHead t f bytes = .ok head) : head.rest.length < bytes.length := by
  unfold readHead at h
  split at h
  · cases h
  · rename_i number w rest h'
    have := length_lt_of_readTag h'
    split at h
    · split at h
      · have := length_lt_of_readField h
        omega
      · have := length_le_of_readStray h
        omega
    · have := length_le_of_readStray h
      omega

/-- The records of a message of the given type, in order. -/
def decode (t : MessageType) (f : Frame) (bytes : Bytes) : Except Fault (List Record) :=
  if bytes = [] then .ok []
  else
    match _h : readHead t f bytes with
    | .error e => .error e
    | .ok (.record r rest) =>
      match decode t f rest with
      | .error e => .error e
      | .ok records => .ok (r.toList ++ records)
    | .ok (.submessage number type length rest) =>
      match decode type (f.inner rest length) (rest.take length) with
      | .error e => .error e
      | .ok body =>
        match decode t f (rest.drop length) with
        | .error e => .error e
        | .ok records => .ok (.message number body :: records)
termination_by bytes.length
decreasing_by
  · exact length_lt_of_readHead _h
  · have := length_lt_of_readHead _h
    simp only [Head.rest] at this
    rw [List.length_take]
    omega
  · have := length_lt_of_readHead _h
    simp only [Head.rest] at this
    rw [List.length_drop]
    omega

/-- The records of a whole input. -/
def decodeRoot (bytes : Bytes) : Except Fault (List Record) :=
  decode .root (.outermost bytes) bytes

end Arbor.Wire
