import SignedAudit.Proofs.FailClosed
import SignedAudit.Proofs.Replies

namespace SignedAudit

/-! # Malformed candidates are turned down unread

A candidate that is not 64 lower-case hexadecimal digits cannot be a signature. `verify` says so on the strength of
its arguments alone: whatever path a run with such a candidate takes, to the description of the commands, to a
defect of the timestamp or to the refusal itself, it ends before the payload, the environment or a file is looked
at, and so it ends in the same way everywhere and leaves no trace. -/

open Effect

/-- **Malformed**: anything but 64 lower-case hexadecimal digits. -/
def Signature.IsMalformed (text : Bytes) : Prop :=
  text.length ≠ 64 ∨ ∃ b ∈ text, b ∉ Bytes.ascii "0123456789abcdef"

theorem Hex.isDigit_iff_mem (b : UInt8) : isDigit b = true ↔ b ∈ Bytes.ascii "0123456789abcdef" :=
  Bytes.forall_byte (motive := fun b => isDigit b = true ↔ b ∈ Bytes.ascii "0123456789abcdef") (by decide +kernel) b

/-- The test for the form of a signature finds what is malformed. -/
theorem Signature.isWellFormed_eq_false_iff (text : Bytes) : isWellFormed text = false ↔ IsMalformed text := by
  rw [isWellFormed, IsMalformed, Bool.and_eq_false_iff, List.all_eq_false, beq_eq_false_iff_ne]
  simp only [Hex.isDigit_iff_mem]
  rfl

namespace Command

/-! ## One reply, nothing touched -/

/-- What verifying a malformed candidate comes to, if there is one. -/
def refused (o : Options) : Except Failure Reply :=
  match o.value? .signature with
  | none => .ok .usage
  | some _ => (occasion? o).map fun occasion => if occasion.isSome then .malformedSignature else .usage

/-- The reply of `verify` to arguments with a malformed candidate: they are all that it depends on. -/
def refusal (arguments : List Bytes) : Reply := .onArguments arguments refused

section

variable {o : Options}
  (h : ∀ candidate, o.value? .signature = some candidate → Signature.IsMalformed candidate)

include h

/-- **A malformed candidate is refused on the strength of the options**, and the system stays as it is. -/
theorem perform_run_verify_of_isMalformed (i : Invocation) (s : System) :
    (verify.run i o).perform s = (refused o, s) := by
  rw [perform_run, decision?, refused]
  cases hcandidate : o.value? .signature with
  | none => rfl
  | some candidate =>
      have hform := (Signature.isWellFormed_eq_false_iff candidate).mpr (h candidate hcandidate)
      -- a defect of the timestamp and an incomplete request come before the candidate, the payload behind it
      rcases occasion? o with f | _ | occasion
      · rfl
      · rfl
      · simp only [hform]
        rfl

end

/-- What a refusal comes to: a wrong use, a defect of the timestamp, or that the candidate is malformed. -/
theorem refused_cases (o : Options) :
    refused o = .ok .usage ∨ refused o = .ok .malformedSignature
      ∨ ∃ instant defect, refused o = .error (Cause.malformedTimestamp instant defect).failure := by
  unfold refused occasion?
  cases o.value? .signature with
  | none => exact .inl rfl
  | some candidate =>
      dsimp only
      split
      · next eventId instant sourceIp _ _ _ =>
          cases Instant.parse instant with
          | error defect => exact .inr (.inr ⟨instant, defect, rfl⟩)
          | ok time => exact .inr (.inl rfl)
      · exact .inl rfl

/-- No refusal is a success. -/
theorem exit_refusal (arguments : List Bytes) : (refusal arguments).exit = 1 ∨ (refusal arguments).exit = 2 := by
  unfold refusal Reply.onArguments
  cases Options.ofArguments? (arguments.map Bytes.untilZero) with
  | none => exact .inr rfl
  | some o =>
      rcases refused_cases o with husage | hmalformed | ⟨instant, defect, hfailure⟩
      · simp only [husage]
        exact .inr rfl
      · simp only [hmalformed]
        exact .inl rfl
      · simp only [hfailure]
        exact .inr rfl

/-- A complete and readable request is refused for its candidate. -/
theorem refused_of_occasion {o : Options} {eventId instant sourceIp candidate : Bytes} {time : Instant}
    (hid : o.value? .eventId = some eventId) (hinstant : o.value? .timestamp = some instant)
    (hip : o.value? .sourceIp = some sourceIp) (hcandidate : o.value? .signature = some candidate)
    (htime : Instant.parse instant = .ok time) : refused o = .ok .malformedSignature := by
  unfold refused occasion?
  rw [hcandidate, hid, hinstant, hip]
  simp only [htime]
  rfl

/-- **A malformed candidate is refused without touching anything.** For arguments that are read as options only with
a malformed candidate, every run of `verify` ends with one and the same reply and leaves the whole system as it was,
its console and its files included, whatever the environment and the system are. That reply is never a success, and
where identifier, timestamp, address and candidate are given and the timestamp can be read, it is that the signature
is invalid, whatever is said about a payload. -/
theorem malformed_candidate_touches_nothing {arguments : List Bytes}
    (h : ∀ o candidate, Options.ofArguments? (arguments.map Bytes.untilZero) = some o →
      o.value? .signature = some candidate → Signature.IsMalformed candidate) :
    (∀ env nonce s, Invocation.run ⟨verify.name :: arguments, env, nonce⟩ s = (refusal arguments, s))
      ∧ ((refusal arguments).exit = 1 ∨ (refusal arguments).exit = 2)
      ∧ ∀ (o : Options) (eventId instant sourceIp candidate : Bytes) (time : Instant),
        Options.ofArguments? (arguments.map Bytes.untilZero) = some o →
        o.value? .eventId = some eventId → o.value? .timestamp = some instant →
        o.value? .sourceIp = some sourceIp → o.value? .signature = some candidate →
        Instant.parse instant = .ok time →
          refusal arguments = {
            exit := 1
            output := Bytes.ascii "invalid\n"
            errors := Bytes.ascii "Signature is not 64 lowercase hex characters\n" } := by
  refine ⟨?_, exit_refusal arguments, ?_⟩
  · intro env nonce s
    unfold Invocation.run refusal Reply.onArguments
    rw [act_zeroTerminated]
    cases hoptions : Options.ofArguments? (arguments.map Bytes.untilZero) with
    | none => rfl
    | some o =>
        dsimp only
        rw [perform_run_verify_of_isMalformed (h o · hoptions)]
        cases refused o <;> rfl
  · intro o eventId instant sourceIp candidate time hoptions hid hinstant hip hcandidate htime
    unfold refusal Reply.onArguments
    rw [hoptions]
    simp only [refused_of_occasion hid hinstant hip hcandidate htime]
    rfl

/-- Options about an event at the epoch, with a candidate in upper case and with two payloads. -/
def upperCaseOptions : Options :=
  [(.eventId, Bytes.ascii "event"), (.timestamp, Bytes.ascii "1970-01-01T00:00:00Z"),
    (.sourceIp, Bytes.ascii "10.0.0.1"), (.signature, List.replicate 64 0x41),
    (.payload, Bytes.ascii "1"), (.payloadFile, Bytes.ascii "body")]

/-- The refusal is the same without a secret and a file, and with a secret, a log file and a failing provider. -/
theorem malformed_candidate_touches_nothing_upper_case :
    let arguments := upperCaseOptions.map Flag.write
    let env : Environment := { secret := some (Bytes.ascii "secret"), logFile := some (Bytes.ascii "/log") }
    let s := Signer.failingSystem Signer.providerFault
    let reply : Reply := {
      exit := 1
      output := Bytes.ascii "invalid\n"
      errors := Bytes.ascii "Signature is not 64 lowercase hex characters\n" }
    Invocation.run ⟨verify.name :: arguments, {}, .zero 16⟩ {} = (reply, {})
      ∧ Invocation.run ⟨verify.name :: arguments, env, .zero 16⟩ s = (reply, s) := by
  intro arguments env s reply
  have hread : Options.ofArguments? (arguments.map Bytes.untilZero) = some upperCaseOptions :=
    Options.ofArguments?_write (by decide)
  have hmalformed : ∀ o candidate, Options.ofArguments? (arguments.map Bytes.untilZero) = some o →
      o.value? .signature = some candidate → Signature.IsMalformed candidate := by
    intro o candidate ho hcandidate
    obtain rfl := Option.some.inj (hread.symm.trans ho)
    obtain rfl := Option.some.inj hcandidate
    exact .inr ⟨0x41, by decide, by decide⟩
  obtain ⟨hsame, -, hreply⟩ := malformed_candidate_touches_nothing hmalformed
  have hrefusal : refusal arguments = reply :=
    hreply _ _ _ _ _ .epoch hread rfl rfl rfl rfl rfl
  exact ⟨hrefusal ▸ hsame _ _ _, hrefusal ▸ hsame _ _ _⟩

end Command

end SignedAudit
