import SignedAudit.Proofs.JsonText
import SignedAudit.Proofs.Signing

namespace SignedAudit

/-! # How verification closes on a failure

A failure of the keyed digest is reported to the log, and the report asks the same provider for the plain
digest of an identifier. The report is short, so that the log always comes to ask, unless it keeps errors
out or the identifier is empty. Of what the plain digest may answer, a failure that is no fault is the
one thing that the log passes on, and with it the verification fails instead of answering. -/

open Consultation Effect

/-! ## The report -/

namespace Event

/-- **An event reports that a signature could not be computed again**: it says for which identifier, of which a digest
is shown at most, and for which reason. -/
structure IsFaultReport (e : Event) (eventId reason : Bytes) : Prop where
  id : e.id = Bytes.ascii "signature_verification_fault"
  category : e.category = .security
  severity : e.severity = .error
  message : e.message = Bytes.ascii "Signature recomputation failed; treating record as invalid"
  fields : e.fields = [
    { key := Bytes.ascii "record_event_id", value := eventId, privacy := .hashed },
    { key := Bytes.ascii "reason", value := reason }]

theorem isFaultReport_faultEvent (eventId reason : Bytes) :
    (Signer.faultEvent eventId reason).IsFaultReport eventId reason :=
  ⟨rfl, rfl, rfl, rfl, rfl⟩

/-- The texts in front of the digest. -/
def faultTexts (time : Bytes) : List (Bytes × Bytes) :=
  [(Bytes.ascii "ts", time), (Bytes.ascii "severity", Severity.error.name),
    (Bytes.ascii "category", Category.security.name),
    (Bytes.ascii "event_id", Bytes.ascii "signature_verification_fault"),
    (Bytes.ascii "message", Bytes.ascii "Signature recomputation failed; treating record as invalid")]

theorem members_faultEvent (eventId reason time : Bytes) :
    (Signer.faultEvent eventId reason).members time
      = (faultTexts time).map (fun m => (m.1, .text m.2))
        ++ [(Bytes.ascii "record_event_id", .fingerprint eventId),
          (Bytes.ascii "reason", .text reason)] := by
  rfl

/-- There is room for the digest in a line. -/
theorem sum_textCost_faultTexts_le {time : Bytes} (h : time.length ≤ 28) :
    ((faultTexts time).map fun m => textCost m.1 m.2).sum ≤ 600 := by
  have htime := Json.length_quoted_le time
  have hrest : ((faultTexts []).tail.map fun m => textCost m.1 m.2).sum ≤ 400 := by decide
  have hfirst : (faultTexts time).map (fun m => textCost m.1 m.2)
      = textCost (Bytes.ascii "ts") time :: (faultTexts []).tail.map fun m => textCost m.1 m.2 := rfl
  have hkey : (Json.quoted (Bytes.ascii "ts")).length = 4 := by decide
  rw [hfirst, List.sum_cons, textCost, hkey]
  omega

/-- **The line of the report fails exactly when the digest of the identifier does.** -/
theorem answer_line_faultEvent_error_iff (p : Provider) (eventId reason : Bytes) {time : Bytes}
    (h : time.length ≤ 28) (calls : Nat) (f : Failure) :
    (answer ((Signer.faultEvent eventId reason).line p time lineLimit) calls).1 = .error f
      ↔ eventId ≠ [] ∧ p.sha256 calls eventId = .error f := by
  have hfit : ((faultTexts time).map fun m => textCost m.1 m.2).sum ≤ 600 := sum_textCost_faultTexts_le h
  have hlimit : lineLimit = 16384 := rfl
  have hkey : (Json.quoted (Bytes.ascii "record_event_id")).length = 17 := by decide
  rw [line, members_faultEvent]
  obtain ⟨next, hnext⟩ := answer_assemble_texts_error_iff p
    [(Bytes.ascii "record_event_id", .fingerprint eventId), (Bytes.ascii "reason", .text reason)] calls f
    (Nat.le_trans hfit (show 600 ≤ lineLimit by decide)) Ascii.openBrace
  rw [hnext]
  refine answer_assemble_digest_error_iff (by omega) next ?_ calls f
  intro m hm
  rw [List.mem_singleton.mp hm]
  rfl

end Event

/-! ## Verification with nothing but the log -/

namespace Signer

/-- **When verification breaks off**: the keyed digest fails for a candidate of the right length, the log
keeps errors, and the plain digest of the identifier, which is asked for next, fails with a failure
that is no fault. -/
structure BreaksOff (signer : Signer) (s : System) (a : Attestation) (signature message : Bytes) :
    Prop where
  length : signature.length = Signature.length
  keyed : ∃ f, signer.tag s a.canonical = .error f
  idle : s.publishing = false
  kept : s.logger.minimum.rank ≤ Severity.error.rank
  named : a.eventId ≠ []
  plain : s.provider.sha256 (s.calls + 1) a.eventId = .error (.other message)

/-- A report that fails is one that the log cannot write. -/
theorem perform_publish_faultEvent_error_iff {s : System} (hlogger : s.subscribers = [.logger])
    (eventId reason : Bytes) (f : Failure) :
    ((Bus.publish (faultEvent eventId reason)).perform s).1 = .error f
      ↔ ∃ message, f = .other message ∧ s.publishing = false
        ∧ s.logger.minimum.rank ≤ Severity.error.rank ∧ eventId ≠ []
        ∧ s.provider.sha256 s.calls eventId = .error (.other message) := by
  rw [Bus.perform_publish_error_iff_of_logger hlogger]
  constructor
  · rintro ⟨hidle, hkept, message, rfl, hline⟩
    obtain ⟨hnamed, hplain⟩ := (Event.answer_line_faultEvent_error_iff s.provider eventId reason
      s.now.length_logText_le s.calls _).mp hline
    exact ⟨message, rfl, hidle, hkept, hnamed, hplain⟩
  · rintro ⟨message, rfl, hidle, hkept, hnamed, hplain⟩
    refine ⟨hidle, hkept, message, rfl, ?_⟩
    exact (Event.answer_line_faultEvent_error_iff s.provider eventId reason s.now.length_logText_le
      s.calls _).mpr ⟨hnamed, hplain⟩

/-- **Verification fails exactly when it breaks off.** -/
theorem perform_verify_error_iff {s : System} (hlogger : s.subscribers = [.logger]) (signer : Signer)
    (a : Attestation) (signature : Bytes) (f : Failure) :
    ((signer.verify a signature).perform s).1 = .error f
      ↔ ∃ message, f = .other message ∧ signer.BreaksOff s a signature message := by
  by_cases hlength : signature.length = Signature.length
  · cases htag : signer.tag s a.canonical with
    | ok d =>
        rw [perform_verify_of_ok htag hlength]
        constructor
        · intro h
          cases h
        · rintro ⟨message, -, hbreak⟩
          obtain ⟨g, hg⟩ := hbreak.keyed
          rw [htag] at hg
          cases hg
    | error g =>
        -- the report is published from the system after the one question, and decides the outcome
        have hreport : ((signer.verify a signature).perform s).1 = .error f
            ↔ ((Bus.publish (faultEvent a.eventId g.what)).perform (asked s)).1 = .error f := by
          rw [perform_verify_of_error htag hlength]
          cases ((Bus.publish (faultEvent a.eventId g.what)).perform (asked s)).1 <;>
            simp only [Except.map, Except.error.injEq, reduceCtorEq]
        have hasked : (asked s).subscribers = [.logger] := hlogger
        rw [hreport, perform_publish_faultEvent_error_iff hasked]
        constructor
        · rintro ⟨message, rfl, hidle, hkept, hnamed, hplain⟩
          exact ⟨message, rfl, hlength, ⟨g, htag⟩, hidle, hkept, hnamed, hplain⟩
        · rintro ⟨message, rfl, hbreak⟩
          exact ⟨message, rfl, hbreak.idle, hbreak.kept, hbreak.named, hbreak.plain⟩
  · rw [perform_verify_of_length_ne hlength]
    constructor
    · intro h
      cases h
    · rintro ⟨message, -, hbreak⟩
      exact absurd hbreak.length hlength

/-- **Verification closes on a failure, unless it breaks off**: it answers in all other cases, with yes for
the signature only, and a failure of the keyed digest is published once, in a report that names the event and the
reason, and answered with no. -/
theorem verify_closes_unless_breaksOff {s : System} (hlogger : s.subscribers = [.logger])
    (signer : Signer) (a : Attestation) (signature : Bytes) :
    (∀ f, ((signer.verify a signature).perform s).1 = .error f
        ↔ ∃ message, f = .other message ∧ signer.BreaksOff s a signature message)
      ∧ ((∀ message, ¬ signer.BreaksOff s a signature message) →
        ∃ answer, ((signer.verify a signature).perform s).1 = .ok answer
          ∧ (answer = true ↔ ∃ d, signer.tag s a.canonical = .ok d ∧ signature = Signature.ofDigest d))
      ∧ ∀ f, signer.tag s a.canonical = .error f → signature.length = Signature.length →
        ∃ report : Event, report.IsFaultReport a.eventId f.what
          ∧ (signer.verify a signature).perform s
            = (do Bus.publish report; return false).perform (asked s)
          ∧ (s.publishing = false → ∀ name,
            ((signer.verify a signature).perform
                { s with subscribers := [.recorder name, .logger] }).2.delivered
              = s.delivered ++ [(name, report)]) := by
  refine ⟨perform_verify_error_iff hlogger signer a signature, ?_, ?_⟩
  · intro hclosed
    cases houtcome : ((signer.verify a signature).perform s).1 with
    | ok answer =>
        refine ⟨answer, rfl, ?_⟩
        rw [← verify_eq_true_iff, houtcome, Except.ok.injEq]
    | error f =>
        obtain ⟨message, -, hbreak⟩ :=
          (perform_verify_error_iff hlogger signer a signature f).mp houtcome
        exact absurd hbreak (hclosed message)
  · intro f htag hlength
    refine ⟨faultEvent a.eventId f.what, Event.isFaultReport_faultEvent _ _, ?_, ?_⟩
    · rw [perform_verify_of_error htag hlength, perform_bind]
      rcases (Bus.publish (faultEvent a.eventId f.what)).perform (asked s) with ⟨_ | _, t⟩ <;> rfl
    · intro hidle name
      have hheard : signer.tag { s with subscribers := [.recorder name, .logger] } a.canonical
          = .error f := htag
      have hsubscribers : (asked { s with subscribers := [.recorder name, .logger] }).subscribers
          = [.recorder name, .logger] := rfl
      rw [perform_verify_of_error hheard hlength]
      exact Bus.delivered_publish_of_recorder hsubscribers hidle _

/-- A system with a provider that always fails. -/
def failingSystem (f : Failure) : System := { provider := .failing f }

/-- A fault of the provider. -/
def providerFault : Failure :=
  .fault { domain := .crypto, code := 0x300, message := Bytes.ascii "simulated failure" }

/-- A candidate of the right length. -/
def zeroDigits : Bytes := List.replicate 64 Ascii.zero

/-- Where the provider fails with faults, the answer is no, and a listener hears of the fault. -/
theorem verify_closes_on_fault :
    ((zeroNonceSigner.verify (eventAtEpoch "event" "10.0.0.1" "x") zeroDigits).perform
        (failingSystem providerFault)).1 = .ok false
      ∧ ∃ report : Event, report.IsFaultReport (Bytes.ascii "event") providerFault.what
        ∧ ((zeroNonceSigner.verify (eventAtEpoch "event" "10.0.0.1" "x") zeroDigits).perform
            { failingSystem providerFault with
              subscribers := [.recorder (Bytes.ascii "a"), .logger] }).2.delivered
          = [(Bytes.ascii "a", report)] := by
  have hlogger : (failingSystem providerFault).subscribers = [.logger] := rfl
  obtain ⟨-, hanswer, hreported⟩ := verify_closes_unless_breaksOff hlogger zeroNonceSigner
    (eventAtEpoch "event" "10.0.0.1" "x") zeroDigits
  have hclosed : ∀ message, ¬ zeroNonceSigner.BreaksOff (failingSystem providerFault)
      (eventAtEpoch "event" "10.0.0.1" "x") zeroDigits message := by
    intro message hbreak
    cases hbreak.plain
  obtain ⟨answer, houtcome, htrue⟩ := hanswer hclosed
  obtain ⟨report, hreport, -, hheard⟩ := hreported providerFault rfl rfl
  refine ⟨?_, report, hreport, hheard rfl (Bytes.ascii "a")⟩
  cases answer with
  | false => exact houtcome
  | true =>
      obtain ⟨d, hd, -⟩ := htrue.mp rfl
      cases hd

/-- **Where it fails with anything else, verification breaks off**, and the failure of the plain digest
escapes. -/
theorem verify_breaks_off_on_other :
    ((zeroNonceSigner.verify (eventAtEpoch "event" "10.0.0.1" "x") zeroDigits).perform
      (failingSystem (.other (Bytes.ascii "simulated failure")))).1
        = .error (.other (Bytes.ascii "simulated failure")) := by
  have hlogger : (failingSystem (.other (Bytes.ascii "simulated failure"))).subscribers = [.logger] := rfl
  rw [perform_verify_error_iff hlogger]
  refine ⟨Bytes.ascii "simulated failure", rfl, ?_⟩
  exact ⟨rfl, ⟨_, rfl⟩, rfl, by decide, by decide, rfl⟩

end Signer

end SignedAudit
