import SignedAudit.Proofs.Replies

namespace SignedAudit

/-! # Signing and verifying from the command line agree

With the same arguments, environment and files, `verify` accepts a candidate exactly when `sign` prints
it. Both replies come from one brief, so where there is none they fail in the same way, the refusal of a
malformed candidate apart; and where there is one, the candidate is compared with what is printed. The
brief depends on the payload and not on the flag that it came from. -/

namespace Reply

/-- **The replies to signing and to verifying a candidate agree.** -/
structure Agrees (candidate : Bytes) (signed verified : Reply) : Prop where
  /-- What is accepted is what is printed. -/
  accepts : verified.exit = 0 ↔ signed.exit = 0 ∧ signed.output = candidate ++ [Ascii.newline]
  confirms : verified.exit = 0 → verified.output = Bytes.ascii "valid" ++ [Ascii.newline]
  /-- If something else is printed, the candidate is invalid. -/
  rejects : signed.exit = 0 → signed.output ≠ candidate ++ [Ascii.newline] →
    verified.exit = 1 ∧ verified.output = Bytes.ascii "invalid" ++ [Ascii.newline]
  /-- Failures are the same, unless the candidate is malformed. -/
  fails : Signature.isWellFormed candidate = true → signed.exit ≠ 0 → verified.exit = signed.exit

variable {candidate : Bytes}

theorem exit_ofFailure_ne_zero (f : Failure) : (ofFailure f).exit ≠ 0 := by
  cases f with
  | other message => exact Nat.succ_ne_zero 2
  | fault fault =>
      show (if fault.domain = .validation then 2 else 3) ≠ 0
      split
      · exact Nat.succ_ne_zero 1
      · exact Nat.succ_ne_zero 2

/-- One failure agrees with itself. -/
theorem agrees_of_exit_ne_zero {reply : Reply} (h : reply.exit ≠ 0) : Agrees candidate reply reply where
  accepts := ⟨fun hzero => absurd hzero h, fun hzero => absurd hzero.1 h⟩
  confirms hzero := absurd hzero h
  rejects hzero := absurd hzero h
  fails _ _ := rfl

/-- A printed signature agrees with the verdict on the candidate. -/
theorem agrees_line (candidate signature : Bytes) :
    Agrees candidate (line signature) (verdict (decide (candidate = signature))) := by
  by_cases h : candidate = signature
  · subst h
    rw [decide_eq_true rfl]
    exact {
      accepts := ⟨fun _ => ⟨rfl, rfl⟩, fun _ => rfl⟩
      confirms := fun _ => rfl
      rejects := fun _ hne => absurd rfl hne
      fails := fun _ hne => absurd rfl hne }
  · have hprinted : (line signature).output ≠ candidate ++ [Ascii.newline] := by
      intro heq
      exact h (List.append_cancel_right heq).symm
    rw [decide_eq_false h]
    exact {
      accepts := ⟨fun hzero => absurd hzero Nat.one_ne_zero, fun hzero => absurd hzero.2 hprinted⟩
      confirms := fun hzero => absurd hzero Nat.one_ne_zero
      rejects := fun _ _ => ⟨rfl, rfl⟩
      fails := fun _ hne => absurd rfl hne }

/-- Whatever signing comes to, it agrees with the refusal of a malformed candidate. -/
theorem agrees_malformedSignature (h : Signature.isWellFormed candidate = false)
    (brief : Except Failure (Option (Bytes × Attestation))) :
    Agrees candidate (ofOutcome (brief.map toSign)) malformedSignature where
  accepts := by
    refine ⟨fun hzero => absurd hzero Nat.one_ne_zero, ?_⟩
    rintro ⟨hzero, hprinted⟩
    obtain f | _ | ⟨secret, a⟩ := brief
    · exact absurd hzero (exit_ofFailure_ne_zero f)
    · exact absurd hzero (Nat.succ_ne_zero 1)
    · -- a signature that is printed is well-formed
      have hsignature : a.signature secret = candidate := List.append_cancel_right hprinted
      rw [← hsignature, Attestation.signature, Signature.isWellFormed_ofDigest] at h
      cases h
  confirms hzero := absurd hzero Nat.one_ne_zero
  rejects _ _ := ⟨rfl, rfl⟩
  fails hwell := by
    rw [h] at hwell
    cases hwell

/-- The replies to one brief agree. -/
theorem agrees_of_brief (candidate : Bytes) (brief : Except Failure (Option (Bytes × Attestation))) :
    Agrees candidate (ofOutcome (brief.map toSign)) (ofOutcome (brief.map (toVerify candidate))) := by
  obtain f | _ | ⟨secret, a⟩ := brief
  · exact agrees_of_exit_ne_zero (exit_ofFailure_ne_zero f)
  · exact agrees_of_exit_ne_zero (Nat.succ_ne_zero 1)
  · exact agrees_line candidate (a.signature secret)

end Reply

namespace Command

/-! ## One brief, two replies -/

/-- What signing and verifying come to agrees. -/
theorem agrees_signed_verified (env : Environment) (files : FileTree) {o : Options} {candidate : Bytes}
    (h : o.value? .signature = some candidate) :
    Reply.Agrees candidate (.ofOutcome (signed env files o)) (.ofOutcome (verified env files o)) := by
  unfold signed verified brief?
  rw [h]
  obtain f | _ | occasion := occasion? o
  · exact Reply.agrees_of_exit_ne_zero (Reply.exit_ofFailure_ne_zero f)
  · exact Reply.agrees_of_exit_ne_zero (Nat.succ_ne_zero 1)
  · dsimp only
    cases hform : Signature.isWellFormed candidate with
    | true => exact Reply.agrees_of_brief candidate (briefOn? env files o occasion)
    | false => exact Reply.agrees_malformedSignature hform (briefOn? env files o occasion)

/-! ## The payload from a flag and from a file -/

/-- Options that name the same occasion and come to the same payload have one brief on it. -/
theorem briefOn?_congr (env : Environment) {files : FileTree} {o o' : Options}
    (h : payload? files o = payload? files o') : briefOn? env files o = briefOn? env files o' := by
  funext occasion
  unfold briefOn?
  rw [h]

theorem signed_congr (env : Environment) {files : FileTree} {o o' : Options}
    (hoccasion : occasion? o = occasion? o') (hpayload : payload? files o = payload? files o') :
    signed env files o = signed env files o' := by
  unfold signed brief?
  rw [hoccasion, briefOn?_congr env hpayload]

theorem verified_congr (env : Environment) {files : FileTree} {o o' : Options}
    (hsignature : o.value? .signature = o'.value? .signature) (hoccasion : occasion? o = occasion? o')
    (hpayload : payload? files o = payload? files o') : verified env files o = verified env files o' := by
  unfold verified
  rw [hsignature, hoccasion, briefOn?_congr env hpayload]

section

variable {o p : Options}

/-- A payload flag has no part in the occasion. -/
theorem occasion?_insert {f : Flag} (h : f = .payload ∨ f = .payloadFile) (v : Bytes) :
    occasion? (o ++ (f, v) :: p) = occasion? (o ++ p) := by
  have hother : ∀ g : Flag, g ∈ [.eventId, .timestamp, .sourceIp] → f ≠ g := by
    obtain rfl | rfl := h <;> decide
  unfold occasion?
  rw [Options.value?_insert_of_ne (hother _ (by decide)), Options.value?_insert_of_ne (hother _ (by decide)),
    Options.value?_insert_of_ne (hother _ (by decide))]

variable (hpayload : ∀ x ∈ o ++ p, x.1 ≠ .payload) (hfile : ∀ x ∈ o ++ p, x.1 ≠ .payloadFile)

include hpayload hfile

/-- The only payload flag gives the payload. -/
theorem payload?_of_text (files : FileTree) (payload : Bytes) :
    payload? files (o ++ (.payload, payload) :: p) = .ok (some payload) := by
  have hother : Flag.payload ≠ .payloadFile := by decide
  have hnone : (o ++ p).value? .payloadFile = none := (Options.value?_eq_none_iff _ _).mpr hfile
  unfold payload?
  rw [Options.value?_insert_self hpayload, Options.value?_insert_of_ne hother, hnone]

/-- The only payload file gives the payload. -/
theorem payload?_of_file {files : FileTree} {path content : Bytes} (hread : files.read path = .ok content) :
    payload? files (o ++ (.payloadFile, path) :: p) = .ok (some content) := by
  have hother : Flag.payloadFile ≠ .payload := by decide
  have hnone : (o ++ p).value? .payload = none := (Options.value?_eq_none_iff _ _).mpr hpayload
  unfold payload?
  rw [Options.value?_insert_self hfile, Options.value?_insert_of_ne hother, hnone]
  dsimp only
  rw [hread]

/-- **The only payload flag may be replaced** by a flag for a file that holds the same payload. -/
theorem outcomes_of_payloadFile (env : Environment) {files : FileTree} {path content : Bytes}
    (hread : files.read path = .ok content) :
    signed env files (o ++ (.payload, content) :: p) = signed env files (o ++ (.payloadFile, path) :: p)
      ∧ verified env files (o ++ (.payload, content) :: p)
        = verified env files (o ++ (.payloadFile, path) :: p) := by
  have hoccasion : occasion? (o ++ (.payload, content) :: p) = occasion? (o ++ (.payloadFile, path) :: p) := by
    rw [occasion?_insert (.inl rfl), occasion?_insert (.inr rfl)]
  have hsame : payload? files (o ++ (.payload, content) :: p)
      = payload? files (o ++ (.payloadFile, path) :: p) := by
    rw [payload?_of_text hpayload hfile, payload?_of_file hpayload hfile hread]
  have hsignature : Options.value? (o ++ (.payload, content) :: p) .signature
      = Options.value? (o ++ (.payloadFile, path) :: p) .signature := by
    rw [Options.value?_insert_of_ne (by decide), Options.value?_insert_of_ne (by decide)]
  exact ⟨signed_congr env hoccasion hsame, verified_congr env hsignature hoccasion hsame⟩

end

/-- What comes to the same for a payload from a flag and from a file has the same reply. -/
theorem onArguments_payload {front rear : List Bytes} {payload path : Bytes}
    (habsent : ∀ argument ∈ front ++ rear, ∀ f ∈ [Flag.payload, Flag.payloadFile],
      ¬ f.spelling <+: argument)
    {outcome : Options → Except Failure Reply}
    (hsame : ∀ o p : Options, (∀ x ∈ o ++ p, x.1 ≠ .payload) → (∀ x ∈ o ++ p, x.1 ≠ .payloadFile) →
      outcome (o ++ (.payload, payload.untilZero) :: p)
        = outcome (o ++ (.payloadFile, path.untilZero) :: p)) :
    Reply.onArguments (front ++ Flag.write (.payload, payload) :: rear) outcome
      = .onArguments (front ++ Flag.write (.payloadFile, path) :: rear) outcome := by
  unfold Reply.onArguments
  simp only [List.map_append, List.map_cons, Flag.untilZero_write, Options.ofArguments?_insert]
  cases hfront : Options.ofArguments? (front.map Bytes.untilZero) with
  | none => rfl
  | some o =>
  cases hrear : Options.ofArguments? (rear.map Bytes.untilZero) with
  | none => rfl
  | some p =>
      have hother : ∀ f ∈ [Flag.payload, Flag.payloadFile], ∀ x ∈ o ++ p, x.1 ≠ f := by
        intro f hf x hx
        obtain hx | hx := List.mem_append.mp hx
        · exact Options.ne_of_ofArguments? hfront
            (fun argument h => habsent argument (List.mem_append_left _ h) f hf) x hx
        · exact Options.ne_of_ofArguments? hrear
            (fun argument h => habsent argument (List.mem_append_right _ h) f hf) x hx
      exact congrArg Reply.ofOutcome (hsame o p (hother _ (by decide)) (hother _ (by decide)))

/-- **Verification agrees with signing.** For the same arguments, environment and files, whatever the
time and the nonces are, the replies to the effective candidate agree; and a payload that is given in the
arguments may as well be given in a file. -/
theorem verify_agrees_with_sign (env : Environment) (files : FileTree) (now now' : Instant)
    (nonce nonce' : Nonce) :
    (∀ arguments candidate, (Options.among arguments).value? .signature = some candidate →
      Reply.Agrees candidate (sign.reply arguments env files now nonce)
        (verify.reply arguments env files now' nonce'))
      ∧ ∀ c, c = sign ∨ c = verify → ∀ front rear payload path,
        (∀ argument ∈ front ++ rear, ∀ f ∈ [Flag.payload, Flag.payloadFile],
          ¬ f.spelling <+: argument) →
        files.read path.untilZero = .ok payload.untilZero →
        c.reply (front ++ Flag.write (.payload, payload) :: rear) env files now nonce
          = c.reply (front ++ Flag.write (.payloadFile, path) :: rear) env files now' nonce' := by
  constructor
  · intro arguments candidate hcandidate
    rw [reply_sign, reply_verify]
    unfold Reply.onArguments
    cases hoptions : Options.ofArguments? (arguments.map Bytes.untilZero) with
    | none => exact Reply.agrees_of_exit_ne_zero (Nat.succ_ne_zero 1)
    | some o =>
        rw [Options.among_eq_of_ofArguments? hoptions] at hcandidate
        exact agrees_signed_verified env.zeroTerminated files hcandidate
  · intro c hc front rear payload path habsent hread
    obtain rfl | rfl := hc
    · rw [reply_sign, reply_sign]
      apply onArguments_payload habsent
      intro o p hpayload hfile
      exact (outcomes_of_payloadFile hpayload hfile env.zeroTerminated hread).1
    · rw [reply_verify, reply_verify]
      apply onArguments_payload habsent
      intro o p hpayload hfile
      exact (outcomes_of_payloadFile hpayload hfile env.zeroTerminated hread).2

/-- A signature under `secret`. -/
def signatureAtEpoch : Bytes :=
  (Signer.eventAtEpoch "event" "10.0.0.1" "1").signature (Bytes.ascii "secret")

/-- Options about an event at the epoch, without a payload. -/
def optionsAtEpoch : Options :=
  [(.eventId, Bytes.ascii "event"), (.timestamp, Bytes.ascii "1970-01-01T00:00:00Z"),
    (.sourceIp, Bytes.ascii "10.0.0.1"), (.signature, signatureAtEpoch)]

/-- The signature is accepted for the payload `1`, also from a file that holds it. -/
theorem verify_agrees_with_sign_at_epoch :
    let env : Environment := { secret := some (Bytes.ascii "secret") }
    let files := FileTree.empty.put (FileTree.empty.home ++ [Bytes.ascii "body"]) (.file (Bytes.ascii "1"))
    let withFlag (x : Flag × Bytes) := optionsAtEpoch.map Flag.write ++ [Flag.write x]
    (verify.reply (withFlag (.payload, Bytes.ascii "1")) env files .epoch (.zero 16)).exit = 0
      ∧ (verify.reply (withFlag (.payloadFile, Bytes.ascii "body")) env files .epoch (.zero 16)).exit
        = 0 := by
  intro env files withFlag
  obtain ⟨hagrees, hreplaced⟩ := verify_agrees_with_sign env files .epoch .epoch (.zero 16) (.zero 16)
  have hoptions : Options.ofArguments? ((withFlag (.payload, Bytes.ascii "1")).map Bytes.untilZero)
      = some (optionsAtEpoch ++ [(.payload, Bytes.ascii "1")]) := by
    have hsignature : 0 ∉ signatureAtEpoch := Hex.zero_notMem_encode _
    have hvalues : ∀ x ∈ optionsAtEpoch ++ [(.payload, Bytes.ascii "1")], 0 ∉ x.2 := by
      simp only [optionsAtEpoch, List.cons_append, List.nil_append, List.forall_mem_cons]
      exact ⟨by decide, by decide, by decide, hsignature, by decide, List.forall_mem_nil _⟩
    have hread := Options.ofArguments?_write hvalues
    rwa [List.map_append] at hread
  have hcandidate : (Options.among (withFlag (.payload, Bytes.ascii "1"))).value? .signature
      = some signatureAtEpoch := by
    rw [Options.among_eq_of_ofArguments? hoptions]
    rfl
  have hsign : sign.reply (withFlag (.payload, Bytes.ascii "1")) env files .epoch (.zero 16)
      = .line signatureAtEpoch := by
    rw [reply_sign, Reply.onArguments, hoptions]
    rfl
  have haccepted := (hagrees _ _ hcandidate).accepts.mpr (by rw [hsign]; exact ⟨rfl, rfl⟩)
  have habsent : ∀ argument ∈ optionsAtEpoch.map Flag.write ++ [], ∀ f ∈ [Flag.payload, Flag.payloadFile],
      ¬ f.spelling <+: argument := by
    rw [List.append_nil, List.forall_mem_map]
    intro x hx f hf
    apply Flag.not_prefix_write
    revert x f
    decide
  have hsame := hreplaced verify (.inr rfl) _ [] (Bytes.ascii "1") (Bytes.ascii "body") habsent rfl
  refine ⟨haccepted, ?_⟩
  rw [← haccepted]
  exact congrArg Reply.exit hsame.symm

end Command

end SignedAudit
