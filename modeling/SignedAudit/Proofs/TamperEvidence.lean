import SignedAudit.Trail
import SignedAudit.Proofs.Binding
import SignedAudit.Proofs.Payload

namespace SignedAudit

/-! # Altered records do not pass

A record that carries the signature of another one, and differs from it in anything but the signature, is
turned down: the two have different signed texts, so that only a collision of the keyed digest could
make one signature fit both. That no bar is in an identifier is so for all records that a trail
logs. -/

open Effect

namespace Record

/-- Identifiers are made of hexadecimal digits and dashes. -/
theorem notMem_newId {b : UInt8} (hdigit : Hex.isDigit b = false) (hdash : b ≠ Ascii.dash)
    (seed : FixedBytes 16) : b ∉ newId seed := by
  intro h
  simp only [newId, formatId, List.mem_append, List.mem_cons] at h
  rcases h with (((h | h | h) | h | h) | h | h) | h | h <;>
    first
    | exact Hex.notMem_encode hdigit _ h
    | exact hdash h

theorem bar_notMem_newId (seed : FixedBytes 16) : Ascii.bar ∉ newId seed :=
  notMem_newId (by decide) (by decide) seed

/-- A record with a signature. -/
def signed (r : Record) (signature : Bytes) : Record := { r with signature }

theorem signature_signed (r : Record) (signature : Bytes) : (r.signed signature).signature = signature := rfl

/-- The signature of a record is no part of what is signed. -/
theorem attestation_signed (r : Record) (signature : Bytes) :
    (r.signed signature).attestation = r.attestation := rfl

end Record

namespace Trail

/-! ## Logging -/

/-- The record of an entry before it is signed. -/
def draft (e : Entry) (seed : FixedBytes 16) (now : Instant) : Record :=
  { toEntry := e, id := Record.newId seed, time := now }

/-- **What logging does**: the provider is asked once, and if it yields a digest, the signed record is what
logging returns, and what the trail ends in. -/
theorem perform_log (trail : Trail) (e : Entry) (seed : FixedBytes 16) (s : System) :
    (trail.log e seed).perform s =
      ((trail.signer.tag s (draft e seed s.now).attestation.canonical).map fun d =>
          ((draft e seed s.now).signed (Signature.ofDigest d),
            { trail with records := trail.records ++ [(draft e seed s.now).signed (Signature.ofDigest d)] }),
        Signer.asked s) := by
  simp only [log, signRecord, perform_bind, perform_get, Signer.perform_sign, draft]
  cases trail.signer.tag s
    (Record.attestation { toEntry := e, id := Record.newId seed, time := s.now }).canonical <;> rfl

/-- A logged record has an identifier of the trail's own, the entry, the time and its genuine signature. -/
theorem perform_log_ok {trail after : Trail} {e : Entry} {seed : FixedBytes 16} {s : System} {r : Record}
    (h : ((trail.log e seed).perform s).1 = .ok (r, after)) :
    r.id = Record.newId seed ∧ r.toEntry = e ∧ r.time = s.now
      ∧ ((trail.signer.sign r.attestation).perform s).1 = .ok r.signature := by
  rw [perform_log] at h
  cases htag : trail.signer.tag s (draft e seed s.now).attestation.canonical with
  | error f =>
      rw [htag] at h
      cases h
  | ok d =>
      rw [htag] at h
      obtain ⟨rfl, -⟩ := Prod.mk.inj (Except.ok.inj h)
      refine ⟨rfl, rfl, rfl, ?_⟩
      rw [Signer.perform_sign, Record.attestation_signed, Record.signature_signed, htag]
      rfl

/-! ## Verification -/

/-- What verification of a record does: that of its signature, and an alarm if the signature does not fit. -/
theorem perform_verify (trail : Trail) (r : Record) (s : System) :
    (trail.verify r).perform s =
      match (trail.signer.verify r.attestation r.signature).perform s with
      | (.ok true, t) => (.ok true, t)
      | (.ok false, t) =>
        (((Bus.publish (tamperedEvent r)).perform t).1.map fun _ => false,
          ((Bus.publish (tamperedEvent r)).perform t).2)
      | (.error f, t) => (.error f, t) := by
  rw [verify, perform_bind]
  rcases (trail.signer.verify r.attestation r.signature).perform s with ⟨f | _ | _, t⟩
  · rfl
  · simp only [Bool.not_false, if_true, perform_bind, perform_pure]
    rcases (Bus.publish (tamperedEvent r)).perform t with ⟨_ | _, u⟩ <;> rfl
  · rfl

/-- A record passes exactly when its signature does. -/
theorem verify_eq_true_iff_signature (trail : Trail) (r : Record) (s : System) :
    ((trail.verify r).perform s).1 = .ok true
      ↔ ((trail.signer.verify r.attestation r.signature).perform s).1 = .ok true := by
  rw [perform_verify]
  rcases (trail.signer.verify r.attestation r.signature).perform s with ⟨f | _ | _, t⟩
  · rfl
  · simp only [Except.ok.injEq, Bool.false_eq_true, iff_false]
    cases ((Bus.publish (tamperedEvent r)).perform t).1 <;>
      simp only [Except.map, reduceCtorEq, Except.ok.injEq, Bool.false_eq_true, not_false_eq_true]
  · rfl

/-- **Rejection**: whenever verification answers, it answers no, and in a calm system it does answer. -/
structure Rejects (trail : Trail) (t : System) (r : Record) : Prop where
  answer_eq_false : ∀ answer, ((trail.verify r).perform t).1 = .ok answer → answer = false
  answers : t.Calm → ((trail.verify r).perform t).1 = .ok false

/-- A record is rejected when its signature is refused. -/
theorem rejects_of_refuses {trail : Trail} {t : System} {r : Record}
    (h : trail.signer.Refuses t r.attestation r.signature) : trail.Rejects t r := by
  refine ⟨?_, ?_⟩
  · intro answer hanswer
    cases answer with
    | false => rfl
    | true => exact absurd ((verify_eq_true_iff_signature trail r t).mp hanswer) h.not_accepted
  · intro hcalm
    have hfalse := h.answered (Or.inr hcalm)
    obtain ⟨-, hafter⟩ := Signer.verify_of_calm hcalm trail.signer r.attestation r.signature
    obtain ⟨hpublished, -⟩ := Bus.perform_publish_of_calm hafter (tamperedEvent r)
    rw [verify, perform_bind_of_ok hfalse]
    simp only [Bool.not_false, if_true]
    rw [perform_bind_of_ok hpublished]
    rfl

/-- **Tamper evidence**: the signed text tells identifier, time and the whole entry, as long as no bar is in
an identifier, and none is in those that a trail gives. So the genuine signature of one record fits no
record that differs in any of these, unless the keyed digest collides on the two texts. -/
theorem tamper_evident :
    (∀ (trail after : Trail) (e : Entry) (seed : FixedBytes 16) (s : System) (r : Record),
        ((trail.log e seed).perform s).1 = .ok (r, after) → Ascii.bar ∉ r.id)
      ∧ ∀ r r' : Record, Ascii.bar ∉ r.id → Ascii.bar ∉ r'.id →
        (r.attestation.canonical = r'.attestation.canonical
            ↔ r.id = r'.id ∧ r.time = r'.time ∧ r.toEntry = r'.toEntry)
          ∧ ∀ (trail : Trail) (s t : System),
            ((trail.signer.sign r.attestation).perform s).1 = .ok r.signature →
            r'.signature = r.signature →
            ¬ (r.id = r'.id ∧ r.time = r'.time ∧ r.toEntry = r'.toEntry) →
              trail.Rejects t r'
                ∨ Signer.Collides trail.signer.secret s t r.attestation.canonical
                  r'.attestation.canonical := by
  refine ⟨?_, ?_⟩
  · intro trail after e seed s r h
    rw [(perform_log_ok h).1]
    exact Record.bar_notMem_newId seed
  · intro r r' hr hr'
    have htext := Record.canonical_attestation_eq_iff hr hr'
    refine ⟨htext, ?_⟩
    intro trail s t hgenuine hcarried hdiffer
    have hne : r.attestation.canonical ≠ r'.attestation.canonical := by
      intro h
      exact hdiffer (htext.mp h)
    rcases Signer.refuses_or_collides rfl hgenuine t hne with hrefused | hcollision
    · left
      rw [← hcarried] at hrefused
      exact rejects_of_refuses hrefused
    · right
      exact hcollision

/-- A record at the epoch by one actor. -/
def recordAtEpoch (actor ip : String) (signature : Bytes) : Record :=
  { actorId := Bytes.ascii actor, ipAddress := Bytes.ascii ip, id := Bytes.ascii "id", signature }

/-- The signature of a record by `alice` does not pass for one by `mallory`. -/
theorem tamper_evident_length :
    ((Signer.zeroNonceSigner.sign (recordAtEpoch "alice" "10.0.0.1" []).attestation).perform
        Signer.lengthSystem).1 = .ok (Signature.ofDigest (FixedBytes.replicate 32 (UInt8.ofNat 196)))
      ∧ (⟨Signer.zeroNonceSigner, []⟩ : Trail).Rejects Signer.lengthSystem
        (recordAtEpoch "mallory" "10.0.0.1"
          (Signature.ofDigest (FixedBytes.replicate 32 (UInt8.ofNat 196)))) := by
  have halice : (recordAtEpoch "alice" "10.0.0.1" []).attestation.canonical.length = 196 := by
    decide +kernel
  have hmallory : (recordAtEpoch "mallory" "10.0.0.1" []).attestation.canonical.length = 198 := by
    decide +kernel
  have hsign : ((Signer.zeroNonceSigner.sign (recordAtEpoch "alice" "10.0.0.1" []).attestation).perform
      Signer.lengthSystem).1 = .ok (Signature.ofDigest (FixedBytes.replicate 32 (UInt8.ofNat 196))) := by
    rw [Signer.perform_sign, ← halice]
    rfl
  refine ⟨hsign, ?_⟩
  obtain ⟨-, htamper⟩ := tamper_evident.2
    (recordAtEpoch "alice" "10.0.0.1" (Signature.ofDigest (FixedBytes.replicate 32 (UInt8.ofNat 196))))
    (recordAtEpoch "mallory" "10.0.0.1" (Signature.ofDigest (FixedBytes.replicate 32 (UInt8.ofNat 196))))
    (by decide) (by decide)
  have hdiffer : (recordAtEpoch "alice" "10.0.0.1" []).actorId
      ≠ (recordAtEpoch "mallory" "10.0.0.1" []).actorId := by decide
  rcases htamper ⟨Signer.zeroNonceSigner, []⟩ Signer.lengthSystem Signer.lengthSystem hsign rfl
    (fun h => hdiffer (congrArg Entry.actorId h.2.2)) with hrejected | ⟨-, d, hm, hn⟩
  · exact hrejected
  · have hone : FixedBytes.replicate 32
        (UInt8.ofNat (recordAtEpoch "alice" "10.0.0.1" []).attestation.canonical.length) = d :=
      Except.ok.inj hm
    have htwo : FixedBytes.replicate 32
        (UInt8.ofNat (recordAtEpoch "mallory" "10.0.0.1" []).attestation.canonical.length) = d :=
      Except.ok.inj hn
    rw [← htwo, halice, hmallory] at hone
    exact absurd hone (by decide)

end Trail

end SignedAudit
