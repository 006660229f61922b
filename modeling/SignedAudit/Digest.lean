import SignedAudit.Bytes

namespace SignedAudit

/-! # Digests

A digest is a string of 32 bytes; the length is part of the type. Numbers are laid out as big-endian
bytes. -/

/-- The result of a hash or of a message authentication code. -/
abbrev Digest := FixedBytes 32

namespace Bytes

/-- The last `count` base-256 digits of a number, the most significant first. -/
def bigEndian : (count : Nat) → Nat → Bytes
  | 0, _ => []
  | count + 1, n => bigEndian count (n / 256) ++ [UInt8.ofNat (n % 256)]

@[simp] theorem length_bigEndian (count n : Nat) : (bigEndian count n).length = count := by
  induction count generalizing n with
  | zero => rfl
  | succ k ih => simp [bigEndian, ih]

end Bytes

end SignedAudit
