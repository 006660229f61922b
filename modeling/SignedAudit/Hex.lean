import SignedAudit.Bytes

namespace SignedAudit.Hex

/-! # Lower-case hexadecimal

Two digits per byte, the high nibble first, letters in lower case only. -/

/-- The digit of a nibble. -/
def digit (n : UInt8) : UInt8 := if n < 10 then Ascii.zero + n else Ascii.lowerA + (n - 10)

/-- Is the byte one of `0` to `9` and `a` to `f`? -/
def isDigit (b : UInt8) : Bool :=
  (Ascii.zero ≤ b && b ≤ Ascii.nine) || (Ascii.lowerA ≤ b && b ≤ Ascii.lowerF)

/-- Two digits per byte. -/
def encode (bytes : Bytes) : Bytes := bytes.flatMap fun (b : UInt8) => [digit (b >>> 4), digit (b &&& 15)]

@[simp] theorem encode_nil : encode [] = [] := rfl

@[simp] theorem encode_cons (b : UInt8) (bytes : Bytes) :
    encode (b :: bytes) = digit (b >>> 4) :: digit (b &&& 15) :: encode bytes := rfl

@[simp] theorem encode_append (a b : Bytes) : encode (a ++ b) = encode a ++ encode b := by
  simp [encode]

@[simp] theorem length_encode (bytes : Bytes) : (encode bytes).length = 2 * bytes.length := by
  induction bytes with
  | nil => rfl
  | cons b rest ih => simp only [encode_cons, List.length_cons, ih]; omega

end SignedAudit.Hex
