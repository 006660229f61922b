import SignedAudit.Proofs.Signing

namespace SignedAudit

/-! # Verification accepts what signing makes, and nothing else

Whoever holds the secret can tell a signature by making it again. A candidate is accepted exactly when it
is, byte for byte, the signature that signing makes of the same statement, as long as the provider gives
both the same keyed digest; that the digest comes in lower-case hexadecimal is then a property of all
that is accepted. A candidate of another length is turned down without a question to the provider. -/

open Effect

/-- **An answering provider** has a keyed digest for every key and text, however often it was asked. -/
def Provider.Answers (p : Provider) : Prop := ∀ call key message, ∃ d, p.hmac call key message = .ok d

theorem Provider.answers_standard : standard.Answers := fun _ _ _ => ⟨_, rfl⟩

namespace Signer

/-- With an answering provider, signing comes to a signature. -/
theorem exists_signature {s : System} (hs : s.provider.Answers) (signer : Signer) (a : Attestation) :
    ∃ signature, ((signer.sign a).perform s).1 = .ok signature := by
  obtain ⟨d, hd⟩ := hs s.calls signer.secret a.canonical
  have htag : signer.tag s a.canonical = .ok d := hd
  refine ⟨Signature.ofDigest d, ?_⟩
  rw [perform_sign, htag]
  rfl

/-- Where the provider yields a digest, verification answers whether the candidate is its signature,
also for candidates of another length. -/
theorem verify_eq_decide {verifier : Signer} {a : Attestation} {t : System} {d : Digest}
    (htag : verifier.tag t a.canonical = .ok d) (candidate : Bytes) :
    ((verifier.verify a candidate).perform t).1 = .ok (decide (candidate = Signature.ofDigest d)) := by
  by_cases hlength : candidate.length = Signature.length
  · rw [perform_verify_of_ok htag hlength]
    show Except.ok (decide (Signature.ofDigest d = candidate)) = _
    rw [decide_eq_decide.mpr eq_comm]
  · have hne : candidate ≠ Signature.ofDigest d := by
      rintro rfl
      exact hlength (Signature.length_ofDigest d)
    rw [perform_verify_of_length_ne hlength, decide_eq_false hne]

/-- **Verification accepts exactly the signature.** With an answering provider signing comes to a
signature, which is well-formed, and wherever the keyed digest is the same as it was for signing,
verification with the same secret answers whether the candidate is this very text. So no malformed
candidate is accepted, in any system, and one of another length leaves the system as it was. -/
theorem verify_accepts_exactly_signature {signer verifier : Signer}
    (hsecret : verifier.secret = signer.secret) (a : Attestation) :
    (∀ s : System, s.provider.Answers → ∃ signature, ((signer.sign a).perform s).1 = .ok signature)
      ∧ (∀ (s : System) (signature : Bytes), ((signer.sign a).perform s).1 = .ok signature →
        Signature.isWellFormed signature = true
          ∧ ∀ t : System, signer.tag t a.canonical = signer.tag s a.canonical → ∀ candidate,
            ((verifier.verify a candidate).perform t).1 = .ok (decide (candidate = signature)))
      ∧ (∀ (t : System) (candidate : Bytes), Signature.isWellFormed candidate = false →
        ((verifier.verify a candidate).perform t).1 ≠ .ok true
          ∧ (t.provider.Answers → ((verifier.verify a candidate).perform t).1 = .ok false))
      ∧ ∀ (t : System) (candidate : Bytes), candidate.length ≠ 64 →
        (verifier.verify a candidate).perform t = (.ok false, t) := by
  refine ⟨?_, ?_, ?_, ?_⟩
  · intro s hs
    exact exists_signature hs signer a
  · intro s signature hsign
    obtain ⟨d, htag, rfl⟩ := exists_tag_of_signText hsign
    refine ⟨Signature.isWellFormed_ofDigest d, ?_⟩
    intro t hsame candidate
    apply verify_eq_decide
    show t.provider.hmac t.calls verifier.secret a.canonical = .ok d
    rw [hsecret]
    exact hsame.trans htag
  · intro t candidate hmalformed
    have hne : ∀ d, candidate ≠ Signature.ofDigest d := by
      rintro d rfl
      rw [Signature.isWellFormed_ofDigest] at hmalformed
      cases hmalformed
    constructor
    · intro haccepted
      obtain ⟨d, -, hd⟩ := (verify_eq_true_iff verifier a candidate t).mp haccepted
      exact hne d hd
    · intro ht
      obtain ⟨d, hd⟩ := ht t.calls verifier.secret a.canonical
      rw [verify_eq_decide hd, decide_eq_false (hne d)]
  · intro t candidate hlength
    exact perform_verify_of_length_ne hlength verifier a t

/-- The signature of the payload `1` is accepted as it is, and not in upper case. -/
theorem verify_accepts_exactly_signature_length :
    ((zeroNonceSigner.verify (eventAtEpoch "event" "10.0.0.1" "1")
        (Bytes.ascii "2f2f2f2f2f2f2f2f2f2f2f2f2f2f2f2f2f2f2f2f2f2f2f2f2f2f2f2f2f2f2f2f")).perform
          lengthSystem).1 = .ok true
      ∧ ((zeroNonceSigner.verify (eventAtEpoch "event" "10.0.0.1" "1")
        (Bytes.ascii "2F2F2F2F2F2F2F2F2F2F2F2F2F2F2F2F2F2F2F2F2F2F2F2F2F2F2F2F2F2F2F2F")).perform
          lengthSystem).1 = .ok false := by
  have hsecret : zeroNonceSigner.secret = zeroNonceSigner.secret := rfl
  obtain ⟨-, hsigned, hmalformed, -⟩ :=
    verify_accepts_exactly_signature hsecret (eventAtEpoch "event" "10.0.0.1" "1")
  have hsign : ((zeroNonceSigner.sign (eventAtEpoch "event" "10.0.0.1" "1")).perform lengthSystem).1
      = .ok (Signature.ofDigest (FixedBytes.replicate 32 47)) := by
    rw [perform_sign]
    rfl
  obtain ⟨-, hanswer⟩ := hsigned lengthSystem _ hsign
  constructor
  · rw [hanswer lengthSystem rfl]
    exact congrArg Except.ok (decide_eq_true (by decide))
  · have hanswers : lengthSystem.provider.Answers := fun _ _ _ => ⟨_, rfl⟩
    exact (hmalformed lengthSystem _ (by decide)).2 hanswers

end Signer

end SignedAudit
