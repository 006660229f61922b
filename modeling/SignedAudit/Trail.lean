import SignedAudit.Record
import SignedAudit.Signer

namespace SignedAudit

/-! # The audit trail

A trail signs entries and keeps the records in the order in which they were logged; an entry that cannot be
signed leaves it as it was. Checking a record that was altered raises an alarm on the event bus. -/

/-- A signer and the records it has signed. -/
structure Trail where
  signer : Signer
  records : List Record := []

namespace Trail

open Effect

/-- The alarm about a record whose signature does not fit. -/
def tamperedEvent (r : Record) : Event where
  category := .security
  severity := .warning
  id := Bytes.ascii "audit_record_tampered"
  message := Bytes.ascii "Audit record failed signature verification"
  fields := [
    { key := Bytes.ascii "record_id", value := r.id },
    { key := Bytes.ascii "action", value := r.action },
    { key := Bytes.ascii "actor_id", value := r.actorId, privacy := .hashed }]

/-- A record with its genuine signature. -/
def signRecord (signer : Signer) (r : Record) : Effect Record := do
  return { r with signature := ← signer.sign r.attestation }

/-- Signs an entry under a new identifier at the present time: the record, and the trail that ends in
it. -/
def log (trail : Trail) (e : Entry) (seed : FixedBytes 16) : Effect (Record × Trail) := do
  let now := (← get).now
  let r ← signRecord trail.signer { toEntry := e, id := Record.newId seed, time := now }
  return (r, { trail with records := trail.records ++ [r] })

/-- Does the signature of a record fit the record? -/
def verify (trail : Trail) (r : Record) : Effect Bool := do
  let valid ← trail.signer.verify r.attestation r.signature
  if !valid then Bus.publish (tamperedEvent r)
  return valid

end Trail

end SignedAudit
