import SignedAudit.Signer
import SignedAudit.Proofs.Digits
import SignedAudit.Proofs.Reporting

namespace SignedAudit

/-! # What signing and verification do

Each asks the provider for one keyed digest at most. A signature is the digest in hexadecimal, and
verification answers whether the candidate is just that; a failure of the provider is reported once and
answered with no, so that nothing but the report itself can fail. -/

open Effect

/-! ## Comparison in constant time -/

namespace Bytes

theorem foldl_or_eq_zero_iff (l : Bytes) (start : UInt8) :
    l.foldl (· ||| ·) start = 0 ↔ start = 0 ∧ ∀ b ∈ l, b = 0 := by
  induction l generalizing start with
  | nil => simp only [List.foldl_nil, List.not_mem_nil, false_implies, implies_true, and_true]
  | cons b rest ih =>
      rw [List.foldl_cons, ih, UInt8.or_eq_zero_iff, List.forall_mem_cons, and_assoc]

/-- **No difference is left over exactly when there is none.** -/
theorem equalConstantTime_iff {a b : Bytes} (h : a.length = b.length) :
    equalConstantTime a b = true ↔ a = b := by
  rw [equalConstantTime, beq_iff_eq, difference, foldl_or_eq_zero_iff]
  simp only [true_and]
  induction a generalizing b with
  | nil =>
      rw [List.length_nil] at h
      simp only [List.eq_nil_of_length_eq_zero h.symm, List.zipWith_nil_left, List.not_mem_nil,
        false_implies, implies_true]
  | cons x a ih =>
      cases b with
      | nil => simp only [List.length_cons, List.length_nil, Nat.add_one_ne_zero] at h
      | cons y b =>
          rw [List.zipWith_cons_cons, List.forall_mem_cons, UInt8.xor_eq_zero_iff,
            ih (Nat.succ.inj h), List.cons.injEq]

end Bytes

namespace Signer

/-! ## Signing -/

/-- The keyed digest of a text that the provider of a system yields next. -/
def tag (signer : Signer) (s : System) (text : Bytes) : Except Failure Digest :=
  s.provider.hmac s.calls signer.secret text

/-- The system after one question to the provider. -/
def asked (s : System) : System := { s with calls := s.calls + 1 }

/-- A signature is the keyed digest of the text, asked for once. -/
theorem perform_signText (signer : Signer) (text : Bytes) (s : System) :
    (signer.signText text).perform s = ((signer.tag s text).map Signature.ofDigest, asked s) := by
  have hasked : s.provider.askHmac signer.secret text s.calls
      = (signer.tag s text, s.calls + 1) := rfl
  rw [signText, perform_bind, perform_consult, hasked]
  cases signer.tag s text <;> rfl

theorem perform_sign (signer : Signer) (a : Attestation) (s : System) :
    (signer.sign a).perform s = ((signer.tag s a.canonical).map Signature.ofDigest, asked s) :=
  signer.perform_signText a.canonical s

/-- A signature is made of a keyed digest that the provider yields. -/
theorem exists_tag_of_signText {signer : Signer} {s : System} {text signature : Bytes}
    (hsign : ((signer.signText text).perform s).1 = .ok signature) :
    ∃ d, signer.tag s text = .ok d ∧ signature = Signature.ofDigest d := by
  rw [perform_signText] at hsign
  cases htag : signer.tag s text with
  | error f =>
      rw [htag] at hsign
      cases hsign
  | ok d =>
      rw [htag] at hsign
      exact ⟨d, rfl, (Except.ok.inj hsign).symm⟩

/-- The nonce is drawn first; without one, the provider is not asked. -/
theorem perform_signReceipt (signer : Signer) (r : Receipt) (s : System) :
    (signer.signReceipt r).perform s =
      match signer.drawNonce.1 with
      | .ok nonce =>
        (.ok ((signer.tag s (r.canonical nonce)).map Signature.ofDigest, signer.drawNonce.2), asked s)
      | .error f => (.ok (.error f, signer.drawNonce.2), s) := by
  rw [signReceipt, drawNonce]
  cases signer.nonceSource signer.draws (FixedBytes.zero 16) with
  | error f => rfl
  | ok nonce =>
      simp only [perform_bind, perform_attempt, perform_ofExcept, signWithNonce, perform_signText,
        perform_pure, tag]

/-! ## Verification -/

/-- A candidate of another length is turned down at once. -/
theorem perform_verify_of_length_ne {signature : Bytes} (h : signature.length ≠ Signature.length)
    (signer : Signer) (a : Attestation) (s : System) :
    (signer.verify a signature).perform s = (.ok false, s) := by
  rw [verify, if_pos h]
  rfl

/-- **The answer is whether the candidate is the signature**, where the provider yields one. -/
theorem perform_verify_of_ok {signer : Signer} {a : Attestation} {s : System} {d : Digest}
    (htag : signer.tag s a.canonical = .ok d) {signature : Bytes}
    (h : signature.length = Signature.length) :
    (signer.verify a signature).perform s = (.ok (decide (Signature.ofDigest d = signature)), asked s) := by
  have hlength : (Signature.ofDigest d).length = signature.length := by
    rw [Signature.length_ofDigest, h]
  have hequal : Bytes.equalConstantTime (Signature.ofDigest d) signature
      = decide (Signature.ofDigest d = signature) := by
    rw [Bool.eq_iff_iff, Bytes.equalConstantTime_iff hlength, decide_eq_true_eq]
  rw [verify, if_neg (not_not_intro h), perform_bind, perform_attempt, perform_sign, htag, ← hequal]
  rfl

/-- **A failure of the provider is published once**, and answered with no if the publication succeeds. -/
theorem perform_verify_of_error {signer : Signer} {a : Attestation} {s : System} {f : Failure}
    (htag : signer.tag s a.canonical = .error f) {signature : Bytes}
    (h : signature.length = Signature.length) :
    (signer.verify a signature).perform s
      = (((Bus.publish (faultEvent a.eventId f.what)).perform (asked s)).1.map fun _ => false,
        ((Bus.publish (faultEvent a.eventId f.what)).perform (asked s)).2) := by
  rw [verify, if_neg (not_not_intro h), perform_bind, perform_attempt, perform_sign, htag]
  simp only [Except.map, perform_bind, perform_pure]
  rcases (Bus.publish (faultEvent a.eventId f.what)).perform (asked s) with ⟨_ | _, t⟩ <;> rfl

/-- **What is accepted**: the signature of the keyed digest that the provider yields, and nothing
else, in any system. -/
theorem verify_eq_true_iff (signer : Signer) (a : Attestation) (signature : Bytes) (s : System) :
    ((signer.verify a signature).perform s).1 = .ok true
      ↔ ∃ d, signer.tag s a.canonical = .ok d ∧ signature = Signature.ofDigest d := by
  by_cases h : signature.length = Signature.length
  · cases htag : signer.tag s a.canonical with
    | ok d =>
        -- the candidate is compared with the one signature there is
        rw [perform_verify_of_ok htag h]
        simp only [Except.ok.injEq, decide_eq_true_eq, exists_eq_left']
        exact eq_comm
    | error f =>
        -- whether or not the report gets through, the answer is not yes
        rw [perform_verify_of_error htag h]
        simp only [reduceCtorEq, false_and, exists_false, iff_false]
        cases ((Bus.publish (faultEvent a.eventId f.what)).perform (asked s)).1 <;>
          simp only [Except.map, reduceCtorEq, Except.ok.injEq, Bool.false_eq_true,
            not_false_eq_true]
  · rw [perform_verify_of_length_ne h]
    simp only [Except.ok.injEq, Bool.false_eq_true, false_iff, not_exists, not_and]
    rintro d - rfl
    exact h (Signature.length_ofDigest d)

/-- The signature of a text is accepted for every event with this text, where it was made. -/
theorem verify_of_signText {signer : Signer} {a : Attestation} {s : System} {text signature : Bytes}
    (hsign : ((signer.signText text).perform s).1 = .ok signature) (htext : text = a.canonical) :
    ((signer.verify a signature).perform s).1 = .ok true := by
  obtain ⟨d, htag, hsignature⟩ := exists_tag_of_signText hsign
  rw [htext] at htag
  exact (verify_eq_true_iff signer a signature s).mpr ⟨d, htag, hsignature⟩

/-- **In a calm system verification always answers**, and the system stays calm. -/
theorem verify_of_calm {s : System} (hs : s.Calm) (signer : Signer) (a : Attestation)
    (signature : Bytes) :
    (∃ answer, ((signer.verify a signature).perform s).1 = .ok answer)
      ∧ ((signer.verify a signature).perform s).2.Calm := by
  have hasked : (asked s).Calm := ⟨hs.tame, hs.hashes⟩
  by_cases h : signature.length = Signature.length
  · cases htag : signer.tag s a.canonical with
    | ok d =>
        rw [perform_verify_of_ok htag h]
        exact ⟨⟨_, rfl⟩, hasked⟩
    | error f =>
        obtain ⟨hok, hcalm⟩ := Bus.perform_publish_of_calm hasked (faultEvent a.eventId f.what)
        rw [perform_verify_of_error htag h, hok]
        exact ⟨⟨false, rfl⟩, hcalm⟩
  · rw [perform_verify_of_length_ne h]
    exact ⟨⟨false, rfl⟩, hs⟩

/-! ## A signer and its events -/

/-- A signer whose nonces are what the buffer held. -/
def zeroNonceSigner : Signer := { secret := Bytes.ascii "secret", nonceSource := fun _ nonce => .ok nonce }

/-- A system whose provider repeats the length of a text. -/
def lengthSystem : System where
  provider := {
    hmac := fun _ _ message => .ok (FixedBytes.replicate 32 (UInt8.ofNat message.length))
    sha256 := fun _ data => .ok (FixedBytes.replicate 32 (UInt8.ofNat data.length)) }

/-- An event at the epoch. -/
def eventAtEpoch (id ip payload : String) : Attestation :=
  ⟨Bytes.ascii id, .epoch, Bytes.ascii ip, Bytes.ascii payload⟩

end Signer

end SignedAudit
