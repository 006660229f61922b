import SignedAudit.Ascii

namespace SignedAudit

/-! # Byte strings

Every text in this library is a string of bytes, read and written without an assumption about its
encoding. Literals are ASCII. A reader of zero-terminated text sees the part before the first zero
byte, `Bytes.untilZero`. -/

/-- A string of bytes. -/
abbrev Bytes := List UInt8

/-- A string of exactly `n` bytes. -/
abbrev FixedBytes (n : Nat) := { b : Bytes // b.length = n }

namespace FixedBytes

/-- `n` times the same byte. -/
def replicate (n : Nat) (b : UInt8) : FixedBytes n := ⟨List.replicate n b, List.length_replicate⟩

/-- `n` zero bytes. -/
def zero (n : Nat) : FixedBytes n := replicate n 0

/-- Reads a byte string as one of length `n`. -/
def ofBytes? (n : Nat) (b : Bytes) : Option (FixedBytes n) :=
  if h : b.length = n then some ⟨b, h⟩ else none

end FixedBytes

namespace Bytes

/-- The bytes of an ASCII text. -/
def ascii (s : String) : Bytes := s.toList.map fun c => UInt8.ofNat c.toNat

/-- The part before the first zero byte. -/
def untilZero (b : Bytes) : Bytes := b.takeWhile (· != 0)

/-- The lower case of an ASCII letter; every other byte is its own lower case. -/
def lowerByte (b : UInt8) : UInt8 := if 65 ≤ b ∧ b ≤ 90 then b + 32 else b

/-- ASCII letters in lower case, all else unchanged. -/
def lower (b : Bytes) : Bytes := b.map lowerByte

/-- Does `needle` occur in a text as a contiguous part? -/
def occursIn (needle : Bytes) : Bytes → Bool
  | [] => needle.isEmpty
  | b :: rest => needle.isPrefixOf (b :: rest) || occursIn needle rest

/-! ## Comparison in constant time

The bitwise differences of two strings are gathered over their whole length before the one test at
the end, so that the work does not depend on where the strings first differ. -/

/-- The bitwise union of the differences of two strings, position by position. -/
def difference (a b : Bytes) : UInt8 := (List.zipWith (· ^^^ ·) a b).foldl (· ||| ·) 0

/-- Equality of two strings of the same length, decided without an early exit. -/
def equalConstantTime (a b : Bytes) : Bool := difference a b == 0

end Bytes

end SignedAudit
