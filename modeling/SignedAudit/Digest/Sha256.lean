import SignedAudit.Digest

namespace SignedAudit.Sha256

/-! # SHA-256

The message is padded to whole blocks of 64 bytes; each block is read as sixteen words, extended to
sixty-four by a recurrence over the last sixteen, and mixed into eight words of state, one round per
word. -/

/-- The eight words of state. -/
structure Words where
  a : UInt32
  b : UInt32
  c : UInt32
  d : UInt32
  e : UInt32
  f : UInt32
  g : UInt32
  h : UInt32

/-- The state before the first block: the fractional parts of the square roots of the first eight
primes. -/
def initial : Words :=
  ⟨0x6a09e667, 0xbb67ae85, 0x3c6ef372, 0xa54ff53a, 0x510e527f, 0x9b05688c, 0x1f83d9ab, 0x5be0cd19⟩

/-- One constant per round: the fractional parts of the cube roots of the first sixty-four primes. -/
def roundConstants : List UInt32 := [
  0x428a2f98, 0x71374491, 0xb5c0fbcf, 0xe9b5dba5, 0x3956c25b, 0x59f111f1, 0x923f82a4, 0xab1c5ed5,
  0xd807aa98, 0x12835b01, 0x243185be, 0x550c7dc3, 0x72be5d74, 0x80deb1fe, 0x9bdc06a7, 0xc19bf174,
  0xe49b69c1, 0xefbe4786, 0x0fc19dc6, 0x240ca1cc, 0x2de92c6f, 0x4a7484aa, 0x5cb0a9dc, 0x76f988da,
  0x983e5152, 0xa831c66d, 0xb00327c8, 0xbf597fc7, 0xc6e00bf3, 0xd5a79147, 0x06ca6351, 0x14292967,
  0x27b70a85, 0x2e1b2138, 0x4d2c6dfc, 0x53380d13, 0x650a7354, 0x766a0abb, 0x81c2c92e, 0x92722c85,
  0xa2bfe8a1, 0xa81a664b, 0xc24b8b70, 0xc76c51a3, 0xd192e819, 0xd6990624, 0xf40e3585, 0x106aa070,
  0x19a4c116, 0x1e376c08, 0x2748774c, 0x34b0bcb5, 0x391c0cb3, 0x4ed8aa4a, 0x5b9cca4f, 0x682e6ff3,
  0x748f82ee, 0x78a5636f, 0x84c87814, 0x8cc70208, 0x90befffa, 0xa4506ceb, 0xbef9a3f7, 0xc67178f2]

/-- Rotation of a word to the right. -/
def rotateRight (x n : UInt32) : UInt32 := (x >>> n) ||| (x <<< (32 - n))

/-! ## Padding and the message schedule -/

/-- A one bit, zeros, and the length in bits as eight bytes, up to a whole number of blocks. -/
def pad (message : Bytes) : Bytes :=
  message ++ (0x80 :: List.replicate ((119 - message.length % 64) % 64) 0)
    ++ Bytes.bigEndian 8 (8 * message.length)

/-- The first `count` blocks of 64 bytes. -/
def blocks : (count : Nat) → Bytes → List Bytes
  | 0, _ => []
  | count + 1, bytes => bytes.take 64 :: blocks count (bytes.drop 64)

/-- Four bytes to a big-endian word. -/
def words : Bytes → List UInt32
  | a :: b :: c :: d :: rest =>
    (a.toUInt32 <<< 24 ||| b.toUInt32 <<< 16 ||| c.toUInt32 <<< 8 ||| d.toUInt32) :: words rest
  | _ => []

/-- The next `count` words of a schedule, from its last sixteen words, the newest first. -/
def extend : (count : Nat) → (recent : List UInt32) → List UInt32
  | 0, _ => []
  | count + 1, recent =>
    let x := recent.getD 14 0
    let y := recent.getD 1 0
    let s0 := rotateRight x 7 ^^^ rotateRight x 18 ^^^ (x >>> 3)
    let s1 := rotateRight y 17 ^^^ rotateRight y 19 ^^^ (y >>> 10)
    let next := recent.getD 15 0 + s0 + recent.getD 6 0 + s1
    next :: extend count (next :: recent.take 15)

/-- The sixty-four words of a block. -/
def schedule (block : Bytes) : List UInt32 := words block ++ extend 48 (words block).reverse

/-! ## Compression -/

/-- One round, with the sum of its constant and its word. -/
def round (s : Words) (kw : UInt32) : Words :=
  let s1 := rotateRight s.e 6 ^^^ rotateRight s.e 11 ^^^ rotateRight s.e 25
  let choice := (s.e &&& s.f) ^^^ (~~~s.e &&& s.g)
  let t1 := s.h + s1 + choice + kw
  let s0 := rotateRight s.a 2 ^^^ rotateRight s.a 13 ^^^ rotateRight s.a 22
  let majority := (s.a &&& s.b) ^^^ (s.a &&& s.c) ^^^ (s.b &&& s.c)
  ⟨t1 + (s0 + majority), s.a, s.b, s.c, s.d + t1, s.e, s.f, s.g⟩

/-- Mixes a block into the state. -/
def compress (s : Words) (block : Bytes) : Words :=
  let t := (List.zipWith (· + ·) roundConstants (schedule block)).foldl round s
  ⟨s.a + t.a, s.b + t.b, s.c + t.c, s.d + t.d, s.e + t.e, s.f + t.f, s.g + t.g, s.h + t.h⟩

/-- The state as bytes. -/
def Words.toDigest (s : Words) : Digest :=
  ⟨Bytes.bigEndian 4 s.a.toNat ++ Bytes.bigEndian 4 s.b.toNat ++ Bytes.bigEndian 4 s.c.toNat
    ++ Bytes.bigEndian 4 s.d.toNat ++ Bytes.bigEndian 4 s.e.toNat ++ Bytes.bigEndian 4 s.f.toNat
    ++ Bytes.bigEndian 4 s.g.toNat ++ Bytes.bigEndian 4 s.h.toNat, by simp⟩

/-- The SHA-256 digest of a message. -/
def hash (message : Bytes) : Digest :=
  let padded := pad message
  ((blocks (padded.length / 64) padded).foldl compress initial).toDigest

end SignedAudit.Sha256
