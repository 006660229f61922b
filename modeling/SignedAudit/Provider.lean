import SignedAudit.Digest.Hmac
import SignedAudit.Failure
import SignedAudit.Hex

namespace SignedAudit

/-! # The provider of digests

All keyed and plain digests come from a provider, which may fail at any call. Its answer may depend on how
often it has been asked before, so a provider that fails now and then is one too. A computation that asks
it counts the calls. -/

/-- A source of digests. The first argument of each function is the number of earlier calls. -/
structure Provider where
  hmac : (call : Nat) → (key message : Bytes) → Except Failure Digest
  sha256 : (call : Nat) → (data : Bytes) → Except Failure Digest

/-- A computation that may ask a provider. Its state is the number of calls so far. -/
abbrev Consultation := ExceptT Failure (StateM Nat)

namespace Provider

/-- HMAC-SHA256 and SHA-256. -/
def standard : Provider where
  hmac _ key message := .ok (Hmac.code key message)
  sha256 _ data := .ok (Sha256.hash data)

/-- Always the same digest. -/
def constant (d : Digest) : Provider where
  hmac _ _ _ := .ok d
  sha256 _ _ := .ok d

/-- Always the same failure. -/
def failing (f : Failure) : Provider where
  hmac _ _ _ := .error f
  sha256 _ _ := .error f

/-- Asks for a keyed digest. -/
def askHmac (p : Provider) (key message : Bytes) : Consultation Digest :=
  fun calls => (p.hmac calls key message, calls + 1)

/-- Asks for a plain digest. -/
def askSha256 (p : Provider) (data : Bytes) : Consultation Digest :=
  fun calls => (p.sha256 calls data, calls + 1)

/-- The hexadecimal digest that stands for a value in telemetry. The empty value has the empty
fingerprint, and the provider is not asked for it. -/
def fingerprint (p : Provider) (value : Bytes) : Consultation Bytes :=
  if value = [] then pure [] else do return Hex.encode (← p.askSha256 value).val

end Provider

end SignedAudit
