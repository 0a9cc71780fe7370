import Arbor.Wire.Fault

/-!
# Numbers of variable length

A number is written seven bits at a time, the least significant first, one group of bits
to a byte; all bytes but the last have their high bit set.  A reader accepts a fixed
number of bytes at most, and the last byte it may read has an upper bound of its own, so
that the number fits 32 or 64 bits.  Leading zero groups are allowed.

## Main declarations

* `readVarint`, `readVarint32`, `readVarint64`: the readers.
* `writeVarint`: the shortest way to write a number.
-/

namespace Arbor.Wire

/-- Read a number of at most `more + 1` bytes, where a byte in the last place is at most
`top`. -/
def readVarint (top : Nat) : (more : Nat) → Bytes → Except Fault (Nat × Bytes)
  | _, [] => .error .unexpectedEnd
  | 0, b :: rest => if b.toNat ≤ top then .ok (b.toNat, rest) else .error .badVarint
  | more + 1, b :: rest =>
    if b.toNat < 128 then .ok (b.toNat, rest)
    else
      match readVarint top more rest with
      | .error e => .error e
      | .ok (n, rest) => .ok (b.toNat - 128 + 128 * n, rest)

/-- Read a number of at most 32 bits. -/
def readVarint32 (bytes : Bytes) : Except Fault (Nat × Bytes) :=
  readVarint 15 4 bytes

/-- Read a number of at most 64 bits. -/
def readVarint64 (bytes : Bytes) : Except Fault (Nat × Bytes) :=
  readVarint 1 9 bytes

/-- Write a number in as few bytes as possible. -/
def writeVarint (n : Nat) : Bytes :=
  if n < 128 then [UInt8.ofNat n] else UInt8.ofNat (n % 128 + 128) :: writeVarint (n / 128)

/-- Reading a number uses up at least one byte. -/
theorem length_lt_of_readVarint {top more n : Nat} {bytes rest : Bytes}
    (h : readVarint top more bytes = .ok (n, rest)) : rest.length < bytes.length := by
  induction more generalizing bytes n with
  | zero =>
    cases bytes with
    | nil => simp [readVarint] at h
    | cons b tail =>
      simp only [readVarint] at h
      split at h
      · cases h
        exact Nat.lt_succ_self _
      · cases h
  | succ more ih =>
    cases bytes with
    | nil => simp [readVarint] at h
    | cons b tail =>
      simp only [readVarint] at h
      split at h
      · cases h
        exact Nat.lt_succ_self _
      · split at h
        · cases h
        · rename_i n' rest' h'
          cases h
          exact Nat.lt_succ_of_lt (ih h')

/-- Reading a short varint takes at least one byte. -/
theorem length_lt_of_readVarint32 {n : Nat} {bytes rest : Bytes}
    (h : readVarint32 bytes = .ok (n, rest)) : rest.length < bytes.length :=
  length_lt_of_readVarint h

/-- Reading a long varint takes at least one byte. -/
theorem length_lt_of_readVarint64 {n : Nat} {bytes rest : Bytes}
    (h : readVarint64 bytes = .ok (n, rest)) : rest.length < bytes.length :=
  length_lt_of_readVarint h

end Arbor.Wire
