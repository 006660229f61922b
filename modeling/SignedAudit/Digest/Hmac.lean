import SignedAudit.Digest.Sha256

namespace SignedAudit.Hmac

/-! # Keyed digests

HMAC over SHA-256: the key fills one block of 64 bytes, and the message is hashed twice behind the
key combined with two fixed bytes. A key longer than a block is replaced by its digest. -/

/-- The key as one block. -/
def keyBlock (key : Bytes) : Bytes :=
  let short := if key.length ≤ 64 then key else (Sha256.hash key).val
  short ++ List.replicate (64 - short.length) 0

/-- The code of a message under a key. -/
def code (key message : Bytes) : Digest :=
  let block := keyBlock key
  let inner := Sha256.hash (block.map (· ^^^ 0x36) ++ message)
  Sha256.hash (block.map (· ^^^ 0x5c) ++ inner.val)

end SignedAudit.Hmac
