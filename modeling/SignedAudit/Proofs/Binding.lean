import SignedAudit.Proofs.Signing
import SignedAudit.Proofs.Statements

namespace SignedAudit

/-! # Which statements share a signature

A signature is accepted for another text than the one it was made for only if the provider yields one keyed
digest for both. So all depends on which statements have the same text: two events with equally many bars
in their identifiers and in their addresses have not, nor has an event that is not ambiguous and any
other one, nor a receipt whose origin names no instant and any event. -/

open Effect

namespace Signer

/-! ## Refusal and collision -/

/-- **A collision**: one keyed digest for two texts, the first asked for in one system and the second in
another one. -/
def Collides (secret : Bytes) (s t : System) (m n : Bytes) : Prop :=
  m ≠ n ∧ ∃ d, s.provider.hmac s.calls secret m = .ok d ∧ t.provider.hmac t.calls secret n = .ok d

/-- **Refusal**: the candidate is never accepted, and the answer is no where the provider yields the
keyed digest and in every calm system. -/
structure Refuses (signer : Signer) (t : System) (a : Attestation) (signature : Bytes) : Prop where
  not_accepted : ((signer.verify a signature).perform t).1 ≠ .ok true
  answered : (∃ d, signer.tag t a.canonical = .ok d) ∨ t.Calm →
    ((signer.verify a signature).perform t).1 = .ok false

/-- What is not accepted is refused. -/
theorem refuses_of_ne {signer : Signer} {t : System} {a : Attestation} {signature : Bytes}
    (h : ((signer.verify a signature).perform t).1 ≠ .ok true) : signer.Refuses t a signature := by
  refine ⟨h, ?_⟩
  have hfalse {answer : Bool} (hanswer : ((signer.verify a signature).perform t).1 = .ok answer) :
      ((signer.verify a signature).perform t).1 = .ok false := by
    cases answer with
    | false => exact hanswer
    | true => exact absurd hanswer h
  -- a digest leads to an answer, and so does a calm system; the answer is not yes
  rintro (⟨d, hd⟩ | hcalm)
  · by_cases hlength : signature.length = Signature.length
    · rw [perform_verify_of_ok hd hlength] at hfalse ⊢
      exact hfalse rfl
    · rw [perform_verify_of_length_ne hlength]
  · obtain ⟨⟨answer, hanswer⟩, -⟩ := verify_of_calm hcalm signer a signature
    exact hfalse hanswer

/-- **The signature of a text is refused for an event with another text, or there is a collision.** -/
theorem refuses_or_collides {signer verifier : Signer} (hsecret : verifier.secret = signer.secret)
    {s : System} {text signature : Bytes} (hsign : ((signer.signText text).perform s).1 = .ok signature)
    (t : System) {a : Attestation} (htext : text ≠ a.canonical) :
    verifier.Refuses t a signature ∨ Collides signer.secret s t text a.canonical := by
  by_cases haccepted : ((verifier.verify a signature).perform t).1 = .ok true
  · right
    obtain ⟨d, htag, hd⟩ := (verify_eq_true_iff verifier a signature t).mp haccepted
    obtain ⟨made, hmade, hsignature⟩ := exists_tag_of_signText hsign
    have hsame : made = d := Signature.ofDigest_injective (hsignature.symm.trans hd)
    refine ⟨htext, d, ?_, ?_⟩
    · rw [← hsame]
      exact hmade
    · rw [← hsecret]
      exact htag
  · left
    exact refuses_of_ne haccepted

/-! ## Two events -/

/-- **A signature is for one event**, as far as the texts tell events apart: those with equally many bars
in identifier and address, and one that is not ambiguous from any other one. -/
theorem signature_of_one_event (a : Attestation) :
    (a.IsAmbiguous ↔ ∃ b, b ≠ a ∧ b.canonical = a.canonical)
      ∧ ∀ b, b ≠ a →
        a.SameBars b ∨ ¬ (a.IsAmbiguous ∧ b.IsAmbiguous) →
          a.canonical ≠ b.canonical
            ∧ ∀ (signer verifier : Signer) (s t : System) (signature : Bytes),
              verifier.secret = signer.secret →
              ((signer.sign a).perform s).1 = .ok signature →
                verifier.Refuses t b signature
                  ∨ Collides signer.secret s t a.canonical b.canonical := by
  refine ⟨a.isAmbiguous_iff_exists_twin, ?_⟩
  intro b hne hapart
  have htext : a.canonical ≠ b.canonical := by
    intro h
    rcases hapart with hbars | hclear
    · exact hne (Attestation.eq_of_canonical_eq h hbars).symm
    · apply hclear
      exact ⟨a.isAmbiguous_iff_exists_twin.mpr ⟨b, hne, h.symm⟩,
        b.isAmbiguous_iff_exists_twin.mpr ⟨a, hne.symm, h⟩⟩
  refine ⟨htext, ?_⟩
  intro signer verifier s t signature hsecret hsign
  exact refuses_or_collides hsecret hsign t htext

/-- The signature for the payload `1` is refused for the payload `12`. -/
theorem signature_of_one_event_length :
    ((zeroNonceSigner.sign (eventAtEpoch "event" "10.0.0.1" "1")).perform lengthSystem).1
        = .ok (Signature.ofDigest (FixedBytes.replicate 32 47))
      ∧ zeroNonceSigner.Refuses lengthSystem (eventAtEpoch "event" "10.0.0.1" "12")
        (Signature.ofDigest (FixedBytes.replicate 32 47)) := by
  have hsign : ((zeroNonceSigner.sign (eventAtEpoch "event" "10.0.0.1" "1")).perform lengthSystem).1
      = .ok (Signature.ofDigest (FixedBytes.replicate 32 47)) := by
    rw [perform_sign]
    rfl
  refine ⟨hsign, ?_⟩
  have hne : eventAtEpoch "event" "10.0.0.1" "12" ≠ eventAtEpoch "event" "10.0.0.1" "1" := by decide
  obtain ⟨-, happlied⟩ := (signature_of_one_event (eventAtEpoch "event" "10.0.0.1" "1")).2
    (eventAtEpoch "event" "10.0.0.1" "12") hne (.inl ⟨rfl, rfl⟩)
  rcases happlied zeroNonceSigner zeroNonceSigner lengthSystem lengthSystem _ rfl hsign with
    hrefused | ⟨-, d, hm, hn⟩
  · exact hrefused
  · have hone : FixedBytes.replicate 32 47 = d := Except.ok.inj hm
    have htwo : FixedBytes.replicate 32 48 = d := Except.ok.inj hn
    rw [← htwo] at hone
    exact absurd hone (by decide)

/-- **Two events with one text**: a bar moves from the address to the payload, and the signature of the
one is accepted for the other. -/
theorem twin_events_share_signature :
    eventAtEpoch "event" "10.0.0.1|x" "y" ≠ eventAtEpoch "event" "10.0.0.1" "x|y"
      ∧ (eventAtEpoch "event" "10.0.0.1|x" "y").canonical
        = (eventAtEpoch "event" "10.0.0.1" "x|y").canonical
      ∧ ∃ signature,
        ((zeroNonceSigner.sign (eventAtEpoch "event" "10.0.0.1|x" "y")).perform {}).1 = .ok signature
        ∧ ((zeroNonceSigner.verify (eventAtEpoch "event" "10.0.0.1" "x|y") signature).perform {}).1
          = .ok true := by
  have htext : (eventAtEpoch "event" "10.0.0.1|x" "y").canonical
      = (eventAtEpoch "event" "10.0.0.1" "x|y").canonical := by decide
  have hsign : ((zeroNonceSigner.sign (eventAtEpoch "event" "10.0.0.1|x" "y")).perform {}).1
      = .ok (Signature.ofDigest (Hmac.code zeroNonceSigner.secret
        (eventAtEpoch "event" "10.0.0.1|x" "y").canonical)) := by
    rw [perform_sign]
    rfl
  exact ⟨by decide, htext, _, hsign, verify_of_signText hsign htext⟩

/-! ## An event and a receipt -/

/-- **The signature of a receipt is for no event**, unless the origin of the receipt names an instant;
and then there is always an event with the same text. -/
theorem receipt_signature_of_no_event (r : Receipt) :
    (∀ nonce, (∃ a : Attestation, a.canonical = r.canonical nonce) ↔ r.origin.NamesInstant)
      ∧ ∀ (signer after : Signer) (s t : System) (signature : Bytes) (a : Attestation),
        ¬ r.origin.NamesInstant →
        ((signer.signReceipt r).perform s).1 = .ok (.ok signature, after) →
          after.Refuses t a signature
            ∨ ∃ nonce, signer.drawNonce.1 = .ok nonce
              ∧ Collides signer.secret s t (r.canonical nonce) a.canonical := by
  refine ⟨r.exists_canonical_eq_iff, ?_⟩
  intro signer after s t signature a hclear hsign
  rw [perform_signReceipt] at hsign
  cases hnonce : signer.drawNonce.1 with
  | error f =>
      rw [hnonce] at hsign
      cases hsign
  | ok nonce =>
      rw [hnonce] at hsign
      simp only [Except.ok.injEq, Prod.mk.injEq] at hsign
      obtain ⟨hsignature, rfl⟩ := hsign
      have htext : r.canonical nonce ≠ a.canonical := by
        intro h
        exact hclear (Receipt.namesInstant_of_canonical_eq h.symm)
      have hmade : ((signer.signText (r.canonical nonce)).perform s).1 = .ok signature := by
        rw [perform_signText]
        exact hsignature
      have hsecret : signer.drawNonce.2.secret = signer.secret := rfl
      rcases refuses_or_collides hsecret hmade t htext with hrefused | hcollision
      · left
        exact hrefused
      · right
        exact ⟨nonce, rfl, hcollision⟩

/-- A receipt of a batch with one event of one byte, at the epoch. -/
def receiptAtEpoch (token ip : String) : Receipt := ⟨Bytes.ascii token, Bytes.ascii ip, 1, 1, .epoch⟩

/-- The origin of a receipt from a plain token and address names no instant: its fields are too
short. -/
theorem not_namesInstant_plain : ¬ (receiptAtEpoch "hec-1" "10.0.0.1").origin.NamesInstant := by
  rintro ⟨t, ht⟩
  have hfields : (Bytes.fields (receiptAtEpoch "hec-1" "10.0.0.1").origin).tail
      = [Bytes.ascii "10.0.0.1"] := by decide
  rw [hfields, List.mem_singleton] at ht
  have hlength := congrArg List.length ht
  rw [Instant.length_canonicalText] at hlength
  exact absurd hlength (by decide)

/-- The signature of a plain receipt is refused for an event of the same token and address. -/
theorem receipt_signature_of_no_event_length :
    ((zeroNonceSigner.signReceipt (receiptAtEpoch "hec-1" "10.0.0.1")).perform lengthSystem).1
        = .ok (.ok (Signature.ofDigest (FixedBytes.replicate 32 82)), zeroNonceSigner.drawNonce.2)
      ∧ zeroNonceSigner.drawNonce.2.Refuses lengthSystem (eventAtEpoch "hec-1" "10.0.0.1" "1|1")
        (Signature.ofDigest (FixedBytes.replicate 32 82)) := by
  have hlength : ((receiptAtEpoch "hec-1" "10.0.0.1").canonical (FixedBytes.zero 16)).length = 82 := by
    decide +kernel
  have hdigest : zeroNonceSigner.tag lengthSystem
      ((receiptAtEpoch "hec-1" "10.0.0.1").canonical (FixedBytes.zero 16))
        = .ok (FixedBytes.replicate 32 (UInt8.ofNat 82)) := by
    rw [← hlength]
    rfl
  have hsign : ((zeroNonceSigner.signReceipt (receiptAtEpoch "hec-1" "10.0.0.1")).perform
      lengthSystem).1
        = .ok (.ok (Signature.ofDigest (FixedBytes.replicate 32 82)), zeroNonceSigner.drawNonce.2) := by
    have hnonce : zeroNonceSigner.drawNonce.1 = .ok (FixedBytes.zero 16) := rfl
    rw [perform_signReceipt, hnonce]
    simp only [hdigest, Except.map]
    rfl
  refine ⟨hsign, ?_⟩
  rcases (receipt_signature_of_no_event (receiptAtEpoch "hec-1" "10.0.0.1")).2 zeroNonceSigner
      zeroNonceSigner.drawNonce.2 lengthSystem lengthSystem _
      (eventAtEpoch "hec-1" "10.0.0.1" "1|1") not_namesInstant_plain hsign with
    hrefused | ⟨nonce, hnonce, -, d, hm, hn⟩
  · exact hrefused
  · cases hnonce
    have hreceipt : FixedBytes.replicate 32 (UInt8.ofNat 82) = d := Except.ok.inj (hdigest.symm.trans hm)
    have hevent : FixedBytes.replicate 32 49 = d := Except.ok.inj hn
    rw [← hevent] at hreceipt
    exact absurd hreceipt (by decide)

/-- **A receipt with the text of an event**: its address is an instant, and the signature of the receipt
is accepted for the event. -/
theorem receipt_shares_signature_with_event :
    (receiptAtEpoch "hec-1" "1970-01-01T00:00:00.000000000Z").canonical (FixedBytes.zero 16)
        = (eventAtEpoch "hec-1" "1"
          "1|1970-01-01T00:00:00.000000000Z|00000000000000000000000000000000").canonical
      ∧ ∃ signature after,
        ((zeroNonceSigner.signReceipt
          (receiptAtEpoch "hec-1" "1970-01-01T00:00:00.000000000Z")).perform {}).1
            = .ok (.ok signature, after)
        ∧ ((after.verify (eventAtEpoch "hec-1" "1"
          "1|1970-01-01T00:00:00.000000000Z|00000000000000000000000000000000") signature).perform {}).1
            = .ok true := by
  have htext : (receiptAtEpoch "hec-1" "1970-01-01T00:00:00.000000000Z").canonical (FixedBytes.zero 16)
      = (eventAtEpoch "hec-1" "1"
        "1|1970-01-01T00:00:00.000000000Z|00000000000000000000000000000000").canonical := by
    decide +kernel
  have hsign : ((zeroNonceSigner.drawNonce.2.signText
      ((receiptAtEpoch "hec-1" "1970-01-01T00:00:00.000000000Z").canonical (FixedBytes.zero 16))).perform
        {}).1 = .ok (Signature.ofDigest (Hmac.code zeroNonceSigner.secret
          ((receiptAtEpoch "hec-1" "1970-01-01T00:00:00.000000000Z").canonical (FixedBytes.zero 16)))) := by
    rw [perform_signText]
    rfl
  refine ⟨htext, _, zeroNonceSigner.drawNonce.2, ?_, verify_of_signText hsign htext⟩
  rw [perform_signReceipt]
  rfl

end Signer

end SignedAudit
