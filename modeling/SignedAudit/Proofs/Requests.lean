import SignedAudit.Proofs.Acceptance
import SignedAudit.Proofs.InstantReading
import SignedAudit.Proofs.Opening

namespace SignedAudit

/-! # What a command asks of a signer

Before a command opens a signer it only reads: the flags, the numbers and instants in them, and the payload file.
By then it has come to a fault, to its reply, or to a request, and the system is as it was. What is left to do of
a request is to open the signer and to have it answer, which it does with a line or a verdict if its provider
answers. -/

open Effect

/-! ## Requests -/

/-- What is asked of a signer. -/
inductive Request
  | signature (a : Attestation)
  | verdict (a : Attestation) (candidate : Bytes)
  | receipt (r : Receipt)

namespace Request

/-- How a signer answers a request. -/
def answer (signer : Signer) : Request → Effect Reply
  | signature a => do return .line (← signer.sign a)
  | verdict a candidate => do return .verdict (← signer.verify a candidate)
  | receipt r => do
    let (outcome, _) ← signer.signReceipt r
    return .line (← Effect.ofExcept outcome)

/-- **What a request is answered with**: a line that is a signature, or a verdict. -/
inductive IsAnsweredBy : Request → Reply → Prop
  | signature (a : Attestation) (d : Digest) : IsAnsweredBy (.signature a) (.line (Signature.ofDigest d))
  | verdict (a : Attestation) (candidate : Bytes) (valid : Bool) :
      IsAnsweredBy (.verdict a candidate) (.verdict valid)
  | receipt (r : Receipt) (d : Digest) : IsAnsweredBy (.receipt r) (.line (Signature.ofDigest d))

/-- **With an answering provider every request is answered**, and only the provider takes notice. -/
theorem perform_answer {s : System} (hp : s.provider.Answers) (i : Invocation) (secret : Bytes)
    (request : Request) :
    ∃ reply calls, (request.answer (Command.signerOf i secret)).perform s = (.ok reply, { s with calls })
      ∧ request.IsAnsweredBy reply := by
  cases request with
  | signature a =>
      obtain ⟨d, hd⟩ := hp s.calls secret a.canonical
      have htag : (Command.signerOf i secret).tag s a.canonical = .ok d := hd
      refine ⟨_, s.calls + 1, ?_, .signature a d⟩
      rw [answer, perform_bind, Signer.perform_sign, htag]
      rfl
  | verdict a candidate =>
      obtain ⟨d, hd⟩ := hp s.calls secret a.canonical
      have htag : (Command.signerOf i secret).tag s a.canonical = .ok d := hd
      rw [answer, perform_bind]
      by_cases hlength : candidate.length = Signature.length
      · rw [Signer.perform_verify_of_ok htag hlength]
        exact ⟨_, s.calls + 1, rfl, .verdict a candidate _⟩
      · rw [Signer.perform_verify_of_length_ne hlength]
        exact ⟨_, s.calls, rfl, .verdict a candidate _⟩
  | receipt r =>
      obtain ⟨d, hd⟩ := hp s.calls secret (r.canonical i.nonce)
      have htag : (Command.signerOf i secret).tag s (r.canonical i.nonce) = .ok d := hd
      have hnonce : (Command.signerOf i secret).drawNonce.1 = .ok i.nonce := rfl
      refine ⟨_, s.calls + 1, ?_, .receipt r d⟩
      rw [answer, perform_bind, Signer.perform_signReceipt, hnonce]
      simp only [htag]
      rfl

end Request

/-! ## Decisions -/

/-- What a command has come to before a signer is opened. -/
inductive Decision
  | reply (reply : Reply)
  | request (request : Request)

namespace Command

/-- Which event is meant, and when and from where it came; `none` if a flag for it is missing. -/
def occasion? (o : Options) : Except Failure (Option (Bytes × Instant × Bytes)) :=
  match o.value? .eventId, o.value? .timestamp, o.value? .sourceIp with
  | some eventId, some instant, some sourceIp =>
    match Instant.parse instant with
    | .ok time => .ok (some (eventId, time, sourceIp))
    | .error defect => .error (Cause.malformedTimestamp instant defect).failure
  | _, _, _ => .ok none

/-- The payload, from a flag or from a file; `none` unless exactly one is given. -/
def payload? (files : FileTree) (o : Options) : Except Failure (Option Bytes) :=
  match o.value? .payload, o.value? .payloadFile with
  | some payload, none => .ok (some payload)
  | none, some path =>
    match files.read path with
    | .ok content => .ok (some content)
    | .error error => .error (Cause.payloadFileUnreadable path error).failure
  | _, _ => .ok none

/-- Reads the text of an instant. -/
def instant? (text : Bytes) : Except Failure Instant :=
  match Instant.parse text with
  | .ok t => .ok t
  | .error defect => .error (Cause.malformedTimestamp text defect).failure

/-- Reads the value of a flag as an integer of so many bits. -/
def integer? (bits : Nat) (f : Flag) (text : Bytes) : Except Failure Int :=
  match Decimal.word? bits text with
  | some n => .ok n
  | none => .error (Cause.malformedInteger f.spelling text).failure

/-- The instant of a receipt, which is the present time if no other is given. -/
def receiptTime? (now : Instant) (o : Options) : Except Failure Instant :=
  match o.value? .timestamp with
  | some instant => instant? instant
  | none => .ok now

/-- What a command about an event comes to on an occasion, with what it asks about the statement. -/
def decisionOn? (files : FileTree) (o : Options) (ask : Attestation → Request)
    (occasion : Bytes × Instant × Bytes) : Except Failure Decision :=
  match payload? files o with
  | .error f => .error f
  | .ok none => .ok (.reply .usage)
  | .ok (some payload) => .ok (.request (ask ⟨occasion.1, occasion.2.1, occasion.2.2, payload⟩))

/-- **What a command comes to before a signer is opened.** -/
def decision? (now : Instant) (files : FileTree) (o : Options) : Command → Except Failure Decision
  | sign =>
    match occasion? o with
    | .error f => .error f
    | .ok none => .ok (.reply .usage)
    | .ok (some occasion) => decisionOn? files o .signature occasion
  | verify =>
    match o.value? .signature with
    | none => .ok (.reply .usage)
    | some candidate =>
      match occasion? o with
      | .error f => .error f
      | .ok none => .ok (.reply .usage)
      | .ok (some occasion) =>
        if Signature.isWellFormed candidate then decisionOn? files o (.verdict · candidate) occasion
        else .ok (.reply .malformedSignature)
  | signIngestion =>
    match o.value? .tokenId, o.value? .sourceIp, o.value? .eventCount, o.value? .byteCount with
    | some tokenId, some sourceIp, some eventCount, some byteCount => do
      let eventCount ← integer? 32 .eventCount eventCount
      let byteCount ← integer? 64 .byteCount byteCount
      let time ← receiptTime? now o
      return .request (.receipt ⟨tokenId, sourceIp, eventCount, byteCount, time⟩)
    | _, _, _, _ => .ok (.reply .usage)
  | timestamp =>
    match o.value? .timestamp with
    | some instant => do return .reply (.line (← instant? instant).canonicalText)
    | none => .ok (.reply .usage)

/-- What is left to do after a decision. -/
def carryOut (i : Invocation) : Except Failure Decision → Effect Reply
  | .error f => throw f
  | .ok (.reply reply) => return reply
  | .ok (.request request) => do request.answer (← openSigner i)

theorem perform_readInstant (text : Bytes) (s : System) : (readInstant text).perform s = (instant? text, s) := by
  unfold readInstant instant?
  cases Instant.parse text <;> rfl

theorem perform_readPayload (o : Options) (s : System) :
    (readPayload o).perform s = (payload? s.files o, s) := by
  unfold readPayload payload?
  cases o.value? .payload with
  | some payload => cases o.value? .payloadFile <;> rfl
  | none =>
      cases o.value? .payloadFile with
      | none => rfl
      | some path =>
          dsimp only
          rw [perform_bind, perform_get]
          dsimp only
          rw [FileTree.readInPieces_eq_read]
          cases s.files.read path <;> rfl

theorem perform_readInteger (bits : Nat) (f : Flag) (text : Bytes) (s : System) :
    (readInteger bits f text).perform s = (integer? bits f text, s) := by
  unfold readInteger integer?
  cases Decimal.word? bits text <;> rfl

section

variable (i : Invocation) (o : Options) (s : System)

/-- Both commands about an event end alike: they read the payload, open the signer, and ask. -/
theorem perform_onOccasion {ask : Attestation → Request} {use : Bytes → Signer → Effect Reply}
    (occasion : Bytes × Instant × Bytes)
    (huse : ∀ payload signer,
      use payload signer = (ask ⟨occasion.1, occasion.2.1, occasion.2.2, payload⟩).answer signer) :
    (do
      match ← readPayload o with
      | none => return .usage
      | some payload =>
        let signer ← openSigner i
        use payload signer : Effect Reply).perform s
      = (carryOut i (decisionOn? s.files o ask occasion)).perform s := by
  rw [perform_bind, perform_readPayload]
  unfold decisionOn?
  rcases payload? s.files o with f | _ | payload
  · rfl
  · rfl
  · simp only [huse]
    rfl

theorem perform_runSign_eq :
    (runSign i o).perform s = (carryOut i (sign.decision? s.now s.files o)).perform s := by
  unfold runSign decision? occasion?
  cases o.value? .eventId with
  | none => rfl
  | some eventId =>
  cases o.value? .timestamp with
  | none => rfl
  | some instant =>
  cases o.value? .sourceIp with
  | none => rfl
  | some sourceIp =>
  dsimp only
  rw [perform_bind, Instant.perform_readInstant]
  cases Instant.parse instant with
  | error defect => rfl
  | ok time => exact perform_onOccasion i o s (eventId, time, sourceIp) fun _ _ => rfl

theorem perform_runVerify_eq :
    (runVerify i o).perform s = (carryOut i (verify.decision? s.now s.files o)).perform s := by
  unfold runVerify decision? occasion?
  cases o.value? .signature with
  | none =>
      cases o.value? .eventId <;> cases o.value? .timestamp <;> cases o.value? .sourceIp <;> rfl
  | some candidate =>
  cases o.value? .eventId with
  | none => rfl
  | some eventId =>
  cases o.value? .timestamp with
  | none => rfl
  | some instant =>
  cases o.value? .sourceIp with
  | none => rfl
  | some sourceIp =>
  dsimp only
  rw [perform_bind, Instant.perform_readInstant]
  cases Instant.parse instant with
  | error defect => rfl
  | ok time =>
  dsimp only
  cases Signature.isWellFormed candidate with
  | false => rfl
  | true =>
      -- only now is the payload read
      rw [if_pos rfl]
      exact perform_onOccasion i o s (eventId, time, sourceIp) fun _ _ => rfl

theorem perform_runSignIngestion_eq :
    (runSignIngestion i o).perform s = (carryOut i (signIngestion.decision? s.now s.files o)).perform s := by
  unfold runSignIngestion decision? receiptTime?
  cases o.value? .tokenId with
  | none => rfl
  | some tokenId =>
  cases o.value? .sourceIp with
  | none => rfl
  | some sourceIp =>
  cases o.value? .eventCount with
  | none => rfl
  | some eventCount =>
  cases o.value? .byteCount with
  | none => rfl
  | some byteCount =>
  dsimp only
  rw [perform_bind, perform_readInteger]
  cases integer? 32 .eventCount eventCount with
  | error f => rfl
  | ok eventCount =>
  dsimp only
  rw [perform_bind, perform_readInteger]
  cases integer? 64 .byteCount byteCount with
  | error f => rfl
  | ok byteCount =>
  cases o.value? .timestamp with
  | none =>
      -- the clock is read here, and nothing has changed it since the command began
      dsimp only
      rw [perform_bind, perform_get]
      dsimp only
      rw [perform_bind, perform_pure]
      rfl
  | some instant =>
      dsimp only
      rw [perform_bind, perform_readInstant]
      cases instant? instant <;> rfl

theorem perform_runTimestamp_eq :
    (runTimestamp o).perform s = (carryOut i (timestamp.decision? s.now s.files o)).perform s := by
  unfold runTimestamp decision?
  cases o.value? .timestamp with
  | none => rfl
  | some instant =>
      dsimp only
      rw [perform_bind, perform_readInstant]
      cases instant? instant <;> rfl

/-- **A command is carried out as it was decided before a signer is opened.** -/
theorem perform_run (c : Command) :
    (c.run i o).perform s = (carryOut i (c.decision? s.now s.files o)).perform s := by
  cases c with
  | sign => exact perform_runSign_eq i o s
  | verify => exact perform_runVerify_eq i o s
  | signIngestion => exact perform_runSignIngestion_eq i o s
  | timestamp => exact perform_runTimestamp_eq i o s

end

/-- **What a command can come to before a signer is opened**: a failure or the description of the commands, and
else only what is its own. -/
inductive Decides : Command → Except Failure Decision → Prop
  | failure (c : Command) (f : Failure) : Decides c (.error f)
  | usage (c : Command) : Decides c (.ok (.reply .usage))
  | malformedSignature : Decides verify (.ok (.reply .malformedSignature))
  | instant (t : Instant) : Decides timestamp (.ok (.reply (.line t.canonicalText)))
  | signature (a : Attestation) : Decides sign (.ok (.request (.signature a)))
  | verdict (a : Attestation) (candidate : Bytes) : Decides verify (.ok (.request (.verdict a candidate)))
  | receipt (r : Receipt) : Decides signIngestion (.ok (.request (.receipt r)))

theorem decides_decisionOn? {c : Command} {ask : Attestation → Request}
    (hask : ∀ a, Decides c (.ok (.request (ask a)))) (files : FileTree) (o : Options)
    (occasion : Bytes × Instant × Bytes) : Decides c (decisionOn? files o ask occasion) := by
  unfold decisionOn?
  rcases payload? files o with f | _ | payload
  · exact .failure c f
  · exact .usage c
  · exact hask _

theorem decides_decision? (c : Command) (now : Instant) (files : FileTree) (o : Options) :
    Decides c (c.decision? now files o) := by
  cases c with
  | sign =>
      rw [decision?]
      rcases occasion? o with f | _ | occasion
      · exact .failure sign f
      · exact .usage sign
      · exact decides_decisionOn? .signature files o occasion
  | verify =>
      rw [decision?]
      cases o.value? .signature with
      | none => exact .usage verify
      | some candidate =>
      rcases occasion? o with f | _ | occasion
      · exact .failure verify f
      · exact .usage verify
      · dsimp only
        split
        · exact decides_decisionOn? (fun a => .verdict a candidate) files o occasion
        · exact .malformedSignature
  | signIngestion =>
      rw [decision?]
      split
      · next tokenId sourceIp eventCount byteCount _ _ _ _ =>
          rcases integer? 32 .eventCount eventCount with f | eventCount
          · exact .failure signIngestion f
          rcases integer? 64 .byteCount byteCount with f | byteCount
          · exact .failure signIngestion f
          rcases receiptTime? now o with f | time
          · exact .failure signIngestion f
          · exact .receipt ⟨tokenId, sourceIp, eventCount, byteCount, time⟩
      · exact .usage signIngestion
  | timestamp =>
      rw [decision?]
      cases o.value? .timestamp with
      | none => exact .usage timestamp
      | some instant =>
          dsimp only
          rcases instant? instant with f | t
          · exact .failure timestamp f
          · exact .instant t

end Command

/-! ## Invocations -/

namespace Invocation

/-- The command that an invocation names, if it names one and all else that it says are flags. -/
def command? (i : Invocation) : Option (Command × Options) :=
  match i.arguments with
  | [] => none
  | name :: flags =>
    match Options.ofArguments? flags, Command.ofName? name with
    | some o, some c => some (c, o)
    | _, _ => none

/-- What an invocation comes to before a signer is opened. -/
def decision? (i : Invocation) (now : Instant) (files : FileTree) : Except Failure Decision :=
  match i.command? with
  | none => .ok (.reply .usage)
  | some (c, o) => c.decision? now files o

theorem system_run (i : Invocation) (s : System) : (i.run s).2 = (i.zeroTerminated.act.perform s).2 := by
  unfold run
  rcases i.zeroTerminated.act.perform s with ⟨_ | _, t⟩ <;> rfl

/-- An invocation is carried out as it was decided before a signer is opened. -/
theorem perform_act (i : Invocation) (s : System) :
    i.act.perform s = (Command.carryOut i (i.decision? s.now s.files)).perform s := by
  unfold act decision? command?
  cases i.arguments with
  | nil => rfl
  | cons name flags =>
      dsimp only
      cases Options.ofArguments? flags with
      | none => rfl
      | some o =>
          cases Command.ofName? name with
          | none => rfl
          | some c => exact Command.perform_run i o s c

end Invocation

end SignedAudit
