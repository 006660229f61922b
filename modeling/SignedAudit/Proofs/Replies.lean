import SignedAudit.Proofs.Arguments
import SignedAudit.Proofs.Requests

namespace SignedAudit

/-! # What the commands about events reply

Signing and verifying do the same work up to the keyed digest: they ask for the same flags, read the
instant, look for the payload, and open the signer. In service all of this comes to a brief, the secret
with the statement, which the flags, the environment and the files decide. The replies are functions of
the brief. Only a malformed candidate is turned down before the brief is complete. -/

open Effect

/-- The signature of a statement under a secret. -/
def Attestation.signature (a : Attestation) (secret : Bytes) : Bytes :=
  Signature.ofDigest (Hmac.code secret a.canonical)

/-! ## The brief -/

namespace Command

/-- What an occasion lacks to a brief: the payload and the secret. -/
def briefOn? (env : Environment) (files : FileTree) (o : Options) (occasion : Bytes × Instant × Bytes) :
    Except Failure (Option (Bytes × Attestation)) :=
  match payload? files o with
  | .error f => .error f
  | .ok none => .ok none
  | .ok (some payload) =>
    let (eventId, time, sourceIp) := occasion
    (Config.secret? env files).map fun secret => some (secret, ⟨eventId, time, sourceIp, payload⟩)

/-- **The brief** of a command about an event: the secret, and the statement to sign or to verify; `none`
for a wrong use. -/
def brief? (env : Environment) (files : FileTree) (o : Options) :
    Except Failure (Option (Bytes × Attestation)) :=
  match occasion? o with
  | .error f => .error f
  | .ok none => .ok none
  | .ok (some occasion) => briefOn? env files o occasion

end Command

/-! ## Replies to a brief -/

namespace Reply

/-- The reply that an outcome ends in. -/
def ofOutcome : Except Failure Reply → Reply
  | .ok reply => reply
  | .error f => .ofFailure f

/-- The reply of signing. -/
def toSign : Option (Bytes × Attestation) → Reply
  | none => .usage
  | some (secret, a) => .line (a.signature secret)

/-- The reply of verifying a candidate that has the form of a signature. -/
def toVerify (candidate : Bytes) : Option (Bytes × Attestation) → Reply
  | none => .usage
  | some (secret, a) => .verdict (decide (candidate = a.signature secret))

end Reply

namespace Command

/-- What signing comes to. -/
def signed (env : Environment) (files : FileTree) (o : Options) : Except Failure Reply :=
  (brief? env files o).map Reply.toSign

/-- What verifying comes to. -/
def verified (env : Environment) (files : FileTree) (o : Options) : Except Failure Reply :=
  match o.value? .signature with
  | none => .ok .usage
  | some candidate =>
    match occasion? o with
    | .error f => .error f
    | .ok none => .ok .usage
    | .ok (some occasion) =>
      if Signature.isWellFormed candidate then
        (briefOn? env files o occasion).map (Reply.toVerify candidate)
      else .ok .malformedSignature

/-! ## What is performed -/

section

variable {s : System} (h : s.InService) (hconsole : s.logger.sink = .console) (i : Invocation) (o : Options)

include h hconsole

/-- Both commands end alike: if what is asked of the signer is answered with the reply to the brief, the
decision on an occasion comes to the same. -/
theorem perform_onOccasion_eq {occasion : Bytes × Instant × Bytes} {ask : Attestation → Request}
    {reply : Option (Bytes × Attestation) → Reply} (husage : reply none = .usage)
    (hanswer : ∀ a secret t, t.InService →
      (((ask a).answer (signerOf i secret)).perform t).1 = .ok (reply (some (secret, a)))) :
    ((carryOut i (decisionOn? s.files o ask occasion)).perform s).1
      = (briefOn? i.environment s.files o occasion).map reply := by
  unfold decisionOn? briefOn?
  rcases payload? s.files o with f | _ | payload
  · rfl
  · exact congrArg Except.ok husage.symm
  · obtain ⟨hopen, htended, hprovider⟩ := perform_openSigner h.tended hconsole i
    have hopened : ((openSigner i).perform s).2.InService := ⟨hprovider.trans h.provider, htended.subscribers⟩
    dsimp only [carryOut]
    cases hsecret : Config.secret? i.environment s.files with
    | error f =>
        rw [hsecret] at hopen
        rw [perform_bind_of_error hopen]
        rfl
    | ok secret =>
        rw [hsecret] at hopen
        rw [perform_bind_of_ok hopen]
        exact hanswer _ secret _ hopened

/-- **What signing comes to.** -/
theorem perform_runSign : ((runSign i o).perform s).1 = signed i.environment s.files o := by
  rw [perform_runSign_eq]
  unfold decision? signed brief?
  rcases occasion? o with f | _ | occasion
  · rfl
  · rfl
  · apply perform_onOccasion_eq h hconsole i o rfl
    intro a secret t ht
    have hsign : (((signerOf i secret).sign a).perform t).1 = .ok (a.signature secret) := by
      rw [Signer.perform_sign, ht.tag_eq]
      rfl
    rw [Request.answer, perform_bind_of_ok hsign]
    rfl

/-- **What verifying comes to.** -/
theorem perform_runVerify : ((runVerify i o).perform s).1 = verified i.environment s.files o := by
  rw [perform_runVerify_eq]
  unfold decision? verified
  cases o.value? .signature with
  | none => rfl
  | some candidate =>
  rcases occasion? o with f | _ | occasion
  · rfl
  · rfl
  · dsimp only
    cases Signature.isWellFormed candidate with
    | false => rfl
    | true =>
        rw [if_pos rfl, if_pos rfl]
        apply perform_onOccasion_eq h hconsole i o rfl
        intro a secret t ht
        have hverify := Signer.verify_eq_decide (ht.tag_eq (signerOf i secret) a.canonical) candidate
        rw [Request.answer, perform_bind_of_ok hverify]
        rfl

end

end Command

/-! ## From the arguments to the reply -/

/-- The environment as a run reads it. -/
def Environment.zeroTerminated (env : Environment) : Environment :=
  (Invocation.zeroTerminated ⟨[], env, FixedBytes.zero 16⟩).environment

/-- The reply to arguments, from what options come to. -/
def Reply.onArguments (arguments : List Bytes) (outcome : Options → Except Failure Reply) : Reply :=
  match Options.ofArguments? (arguments.map Bytes.untilZero) with
  | none => .usage
  | some o => .ofOutcome (outcome o)

theorem Invocation.reply_run (i : Invocation) (s : System) :
    (i.run s).1 = .ofOutcome (i.zeroTerminated.act.perform s).1 := by
  unfold run
  rcases i.zeroTerminated.act.perform s with ⟨_ | _, t⟩ <;> rfl

namespace Command

theorem ofName?_name (c : Command) : ofName? c.name = some c := by cases c <;> decide

theorem untilZero_name (c : Command) : c.name.untilZero = c.name := by cases c <;> decide

/-- The command is run if all its arguments are flags. -/
theorem act_zeroTerminated (c : Command) (arguments : List Bytes) (env : Environment) (nonce : Nonce) :
    (Invocation.zeroTerminated ⟨c.name :: arguments, env, nonce⟩).act =
      match Options.ofArguments? (arguments.map Bytes.untilZero) with
      | none => pure .usage
      | some o => c.run (Invocation.zeroTerminated ⟨c.name :: arguments, env, nonce⟩) o := by
  have hname : ofName? c.name.untilZero = some c := by rw [untilZero_name, ofName?_name]
  unfold Invocation.act
  simp only [Invocation.zeroTerminated, List.map_cons, hname]
  cases Options.ofArguments? (arguments.map Bytes.untilZero) <;> rfl

/-- The reply to a command with these arguments behind it, at the start of a run. -/
def reply (c : Command) (arguments : List Bytes) (env : Environment) (files : FileTree) (now : Instant)
    (nonce : Nonce) : Reply :=
  (Invocation.run ⟨c.name :: arguments, env, nonce⟩ (.atStart now files)).1

section

variable (arguments : List Bytes) (env : Environment) (files : FileTree) (now : Instant) (nonce : Nonce)

/-- **The reply of `sign`**: neither the present time nor the nonce has a part in it. -/
theorem reply_sign :
    sign.reply arguments env files now nonce
      = .onArguments arguments (signed env.zeroTerminated files) := by
  unfold reply Reply.onArguments
  rw [Invocation.reply_run, act_zeroTerminated]
  cases Options.ofArguments? (arguments.map Bytes.untilZero) with
  | none => rfl
  | some o => exact congrArg Reply.ofOutcome (perform_runSign (System.inService_atStart now files) rfl _ o)

/-- **The reply of `verify`**: neither the present time nor the nonce has a part in it. -/
theorem reply_verify :
    verify.reply arguments env files now nonce
      = .onArguments arguments (verified env.zeroTerminated files) := by
  unfold reply Reply.onArguments
  rw [Invocation.reply_run, act_zeroTerminated]
  cases Options.ofArguments? (arguments.map Bytes.untilZero) with
  | none => rfl
  | some o => exact congrArg Reply.ofOutcome (perform_runVerify (System.inService_atStart now files) rfl _ o)

end

end Command

end SignedAudit
