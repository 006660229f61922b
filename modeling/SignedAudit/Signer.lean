import SignedAudit.Bus
import SignedAudit.Canonical
import SignedAudit.Signature

namespace SignedAudit

/-! # Signing

A signer holds the secret and a source of nonces. It signs a canonical text with the keyed digest of the
text. Verification computes the signature again and compares in constant time; a failure of the provider
makes it reject, after an event that says so. -/

/-- A source of nonces: from the number of earlier draws and a buffer to the nonce, or a failure. -/
abbrev NonceSource := (draw : Nat) → Nonce → Except Failure Nonce

/-- A secret, and where nonces come from. -/
structure Signer where
  secret : Bytes
  nonceSource : NonceSource
  /-- How often the source has been asked. -/
  draws : Nat := 0

namespace Signer

open Effect

/-! ## Events -/

/-- The event that a signer is ready. -/
def readyEvent (keyBytes : Nat) : Event where
  category := .lifecycle
  severity := .info
  id := Bytes.ascii "event_signer_initialized"
  message := Bytes.ascii "Audit event signer ready"
  fields := [{ key := Bytes.ascii "key_bytes", value := Decimal.ofNat keyBytes, numeric := true }]

/-- The event that a signer has the empty secret. -/
def emptySecretEvent : Event where
  category := .security
  severity := .warning
  id := Bytes.ascii "weak_audit_secret"
  message := Bytes.ascii "Audit signer constructed with an empty secret"
  fields := [{ key := Bytes.ascii "key_bytes", value := Decimal.ofNat 0, numeric := true }]

/-- The event that a signature could not be computed again. -/
def faultEvent (eventId reason : Bytes) : Event where
  category := .security
  severity := .error
  id := Bytes.ascii "signature_verification_fault"
  message := Bytes.ascii "Signature recomputation failed; treating record as invalid"
  fields := [
    { key := Bytes.ascii "record_event_id", value := eventId, privacy := .hashed },
    { key := Bytes.ascii "reason", value := reason }]

/-! ## Signatures -/

/-- Makes a signer ready. -/
def create (secret : Bytes) (nonceSource : NonceSource) : Effect Signer := do
  Bus.publish (readyEvent secret.length)
  if secret = [] then Bus.publish emptySecretEvent
  return { secret, nonceSource }

/-- The signature of a canonical text. -/
def signText (signer : Signer) (text : Bytes) : Effect Bytes := do
  return Signature.ofDigest (← consult fun p => p.askHmac signer.secret text)

/-- The signature of a statement about an event. -/
def sign (signer : Signer) (a : Attestation) : Effect Bytes := signer.signText a.canonical

/-- Is this the signature of the statement? The length of a signature is no secret; after the test of the
length nothing depends on where two signatures differ. -/
def verify (signer : Signer) (a : Attestation) (signature : Bytes) : Effect Bool := do
  if signature.length ≠ Signature.length then return false
  match ← attempt (signer.sign a) with
  | .ok expected => return Bytes.equalConstantTime expected signature
  | .error f =>
    Bus.publish (faultEvent a.eventId f.what)
    return false

/-- Draws a nonce into a buffer of zeros: the outcome, and the signer afterwards. -/
def drawNonce (signer : Signer) : Except Failure Nonce × Signer :=
  (signer.nonceSource signer.draws (FixedBytes.zero 16), { signer with draws := signer.draws + 1 })

/-- The signature of a receipt with a given nonce. -/
def signWithNonce (signer : Signer) (r : Receipt) (nonce : Nonce) : Effect Bytes :=
  signer.signText (r.canonical nonce)

/-- The signature of a receipt with a nonce of its own: the outcome, and the signer afterwards. -/
def signReceipt (signer : Signer) (r : Receipt) : Effect (Except Failure Bytes × Signer) := do
  let (nonce, signer) := signer.drawNonce
  let outcome ← attempt (do signer.signWithNonce r (← Effect.ofExcept nonce))
  return (outcome, signer)

end Signer

end SignedAudit
