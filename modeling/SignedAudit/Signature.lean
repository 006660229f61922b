import SignedAudit.Digest
import SignedAudit.Hex

namespace SignedAudit.Signature

/-! # The form of a signature

A signature is a digest in lower-case hexadecimal, and so 64 digits long. -/

/-- The number of digits of a signature. -/
def length : Nat := 64

/-- The signature that a digest makes. -/
def ofDigest (d : Digest) : Bytes := Hex.encode d.val

@[simp] theorem length_ofDigest (d : Digest) : (ofDigest d).length = length := by
  rw [ofDigest, Hex.length_encode, d.property, length]

/-- Does a text have the form of a signature? -/
def isWellFormed (text : Bytes) : Bool := text.length == length && text.all Hex.isDigit

end SignedAudit.Signature
