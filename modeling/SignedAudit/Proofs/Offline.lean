import Mathlib.Data.List.TakeWhile
import SignedAudit.Proofs.RecordJson
import SignedAudit.Proofs.Replies
import SignedAudit.Proofs.TamperEvidence

namespace SignedAudit

/-! # Records are verified offline

Whoever holds the secret can verify a record from the command line, without the trail that it comes from.
Arguments end at zero bytes, and so does a secret in the environment. The payload holds none, because JSON
text is free of control bytes, and neither does the time; so only the identifier, the address and the
signature of the record have to be asked for that. The time is read back, and what is left of the work is
the same on both sides: the candidate is compared with the signature under the secret. -/

open Effect

/-! ## The secret in the environment -/

/-- **An environment provides a secret**, by itself or in a file, and leaves logging as it is. -/
inductive Environment.Provides (files : FileTree) (secret : Bytes) : Environment → Prop
  | inline {text : Bytes} (h : text.untilZero = secret) : Provides files secret { secret := some text }
  | file {path content : Bytes} (hread : files.read path.untilZero = .ok content)
      (hsecret : Config.dropLineEnd content = secret) : Provides files secret { secretFile := some path }

namespace Config

theorem secret?_of_provides {env : Environment} {files : FileTree} {secret : Bytes}
    (h : env.Provides files secret) : secret? env.zeroTerminated files = .ok secret := by
  cases h with
  | inline h =>
      rw [← h]
      rfl
  | @file path content hread hsecret =>
      have hpath : path.untilZero.untilZero = path.untilZero := List.takeWhile_idem
      have hsource : (Source.file path.untilZero).read files = .ok secret := by
        rw [Source.read_file, hpath, hread, ← hsecret]
      have hconfig : read { secretFile := some path.untilZero } files
          = .ok ({ secret, logFile := none, minimum := .info }, .file path.untilZero) := by
        show ((Source.file path.untilZero).read files >>= fun secret =>
          Except.ok (({ secret, logFile := none, minimum := .info } : Config), Source.file path.untilZero))
            = _
        rw [hsource]
        rfl
      show secret? { secretFile := some path.untilZero } files = _
      rw [secret?, loaded, hconfig]
      rfl

end Config

/-- **Every secret can be provided**: in a file, with a line end behind it. -/
theorem Environment.provides_of_read {files : FileTree} {path secret : Bytes}
    (h : files.read path.untilZero = .ok (secret ++ [Ascii.carriageReturn, Ascii.newline])) :
    Provides files secret { secretFile := some path } :=
  .file h (Config.dropLineEnd_append secret)

/-! ## Verdicts -/

namespace Reply

/-- **A reply judges whether something passes**: by its exit code and its output. -/
structure Judges (reply : Reply) (passes : Prop) : Prop where
  accepts : reply.exit = 0 ∧ reply.output = Bytes.ascii "valid" ++ [Ascii.newline] ↔ passes
  rejects : ¬ passes → reply.exit = 1 ∧ reply.output = Bytes.ascii "invalid" ++ [Ascii.newline]

variable {passes : Prop}

theorem judges_of_rejection {reply : Reply} (hexit : reply.exit = 1)
    (houtput : reply.output = Bytes.ascii "invalid" ++ [Ascii.newline]) (h : ¬ passes) :
    Judges reply passes := by
  refine ⟨?_, fun _ => ⟨hexit, houtput⟩⟩
  constructor
  · rintro ⟨hzero, -⟩
    rw [hexit] at hzero
    exact absurd hzero Nat.one_ne_zero
  · intro hpasses
    exact absurd hpasses h

theorem judges_verdict [Decidable passes] : Judges (verdict (decide passes)) passes := by
  by_cases h : passes
  · rw [decide_eq_true h]
    exact ⟨⟨fun _ => h, fun _ => ⟨rfl, rfl⟩⟩, fun hnot => absurd h hnot⟩
  · rw [decide_eq_false h]
    exact judges_of_rejection rfl rfl h

end Reply

/-! ## The arguments for a record -/

namespace Record

/-- The options that say what a record says. -/
def options (r : Record) : Options := [
  (.eventId, r.id),
  (.timestamp, r.time.canonicalText),
  (.sourceIp, r.ipAddress),
  (.payload, r.payload),
  (.signature, r.signature)]

/-- The arguments that say what a record says. -/
def arguments (r : Record) : List Bytes := r.options.map Flag.write

/-- **Arguments can say what a record says**: its identifier, address and signature hold no zero byte, and
its time can be read. -/
structure Expressible (r : Record) : Prop where
  id : 0 ∉ r.id
  ipAddress : 0 ∉ r.ipAddress
  signature : 0 ∉ r.signature
  time : r.time.IsReadable

variable {r : Record}

/-- The arguments are read as the options they were written from. -/
theorem ofArguments?_arguments (h : r.Expressible) :
    Options.ofArguments? (r.arguments.map Bytes.untilZero) = some r.options := by
  apply Options.ofArguments?_write
  have htime : 0 ∉ r.time.canonicalText := by
    intro hzero
    rcases Instant.mem_canonicalText hzero with hdigit | hmark
    · exact absurd hdigit (by decide)
    · exact absurd hmark (by decide)
  simp only [options, List.forall_mem_cons]
  exact ⟨h.id, htime, h.ipAddress, r.isPrintable_payload.zero_notMem, h.signature, List.forall_mem_nil _⟩

/-- The options name the occasion. -/
theorem occasion?_options (h : r.time.IsReadable) :
    Command.occasion? r.options = .ok (some (r.id, r.time, r.ipAddress)) := by
  have hid : r.options.value? .eventId = some r.id := rfl
  have htext : r.options.value? .timestamp = some r.time.canonicalText := rfl
  have haddress : r.options.value? .sourceIp = some r.ipAddress := rfl
  unfold Command.occasion?
  rw [hid, htext, haddress]
  dsimp only
  rw [Instant.parse_canonicalText_of_isReadable h]

/-- With the payload and the secret they come to the statement that the signature is about. -/
theorem briefOn?_options (r : Record) {env : Environment} {files : FileTree} {secret : Bytes}
    (henv : env.Provides files secret) :
    Command.briefOn? env.zeroTerminated files r.options (r.id, r.time, r.ipAddress)
      = .ok (some (secret, r.attestation)) := by
  have hpayload : r.options.value? .payload = some r.payload := rfl
  have hfile : r.options.value? .payloadFile = none := rfl
  unfold Command.briefOn? Command.payload?
  rw [hpayload, hfile, Config.secret?_of_provides henv]
  rfl

/-- **What verifying a record comes to**: the verdict whether its signature is the one under the secret. -/
theorem judges_reply (h : r.Expressible) {env : Environment} {files : FileTree} {secret : Bytes}
    (henv : env.Provides files secret) (now : Instant) (nonce : Nonce) :
    Reply.Judges (Command.verify.reply r.arguments env files now nonce)
      (r.signature = r.attestation.signature secret) := by
  have hcandidate : r.options.value? .signature = some r.signature := rfl
  rw [Command.reply_verify, Reply.onArguments, ofArguments?_arguments h]
  unfold Command.verified
  simp only [hcandidate, occasion?_options h.time, briefOn?_options r henv]
  cases hform : Signature.isWellFormed r.signature with
  | true =>
      rw [if_pos rfl]
      exact Reply.judges_verdict
  | false =>
      -- what is turned down for its form is no signature under any secret
      rw [if_neg Bool.false_ne_true]
      apply Reply.judges_of_rejection rfl rfl
      intro hsignature
      rw [hsignature, Attestation.signature, Signature.isWellFormed_ofDigest] at hform
      cases hform

end Record

/-! ## The trail and the command line -/

namespace Trail

variable {s : System} (hs : s.provider = .standard) (trail : Trail)

include hs

theorem tag_of_standard (text : Bytes) :
    trail.signer.tag s text = .ok (Hmac.code trail.signer.secret text) := by
  rw [Signer.tag, hs]
  rfl

/-- With the standard provider a record passes exactly with its signature under the trail's secret. -/
theorem verify_eq_true_iff_of_standard (r : Record) :
    ((trail.verify r).perform s).1 = .ok true
      ↔ r.signature = r.attestation.signature trail.signer.secret := by
  rw [verify_eq_true_iff_signature, Signer.verify_eq_true_iff, tag_of_standard hs]
  simp only [Except.ok.injEq, exists_eq_left', Attestation.signature]

/-- With the standard provider every entry is logged, at the present time. -/
theorem perform_log_of_standard (e : Entry) (seed : FixedBytes 16) :
    ∃ r after, ((trail.log e seed).perform s).1 = .ok (r, after)
      ∧ r.toEntry = e ∧ r.id = Record.newId seed ∧ r.time = s.now
      ∧ r.signature = r.attestation.signature trail.signer.secret := by
  have hlog := trail.perform_log e seed s
  rw [tag_of_standard hs] at hlog
  refine ⟨_, _, congrArg Prod.fst hlog, rfl, rfl, rfl, ?_⟩
  rw [Record.attestation_signed, Record.signature_signed, Attestation.signature]

end Trail

/-- **Offline verification agrees with the trail.** Under the same secret, and with the standard provider on
both sides, the command line calls a record valid exactly when it passes in the trail, and invalid
otherwise. So whatever a trail logs for an address without a zero byte is valid on the command line. -/
theorem Trail.verifies_offline {secret : Bytes} {env : Environment} {files : FileTree}
    (henv : env.Provides files secret) {trail : Trail} (hsecret : trail.signer.secret = secret) {s : System}
    (hs : s.provider = .standard) (now : Instant) (nonce : Nonce) :
    (∀ r : Record, 0 ∉ r.id → 0 ∉ r.ipAddress → 0 ∉ r.signature →
        -9223372036000000000 ≤ r.time.ns ∧ r.time.ns ≤ 9223372035999999999 →
        Reply.Judges (Command.verify.reply r.arguments env files now nonce)
          (((trail.verify r).perform s).1 = .ok true))
      ∧ ∀ (e : Entry) (seed : FixedBytes 16), 0 ∉ e.ipAddress →
        -9223372036000000000 ≤ s.now.ns ∧ s.now.ns ≤ 9223372035999999999 →
        ∃ r after, ((trail.log e seed).perform s).1 = .ok (r, after)
          ∧ (Command.verify.reply r.arguments env files now nonce).exit = 0
          ∧ (Command.verify.reply r.arguments env files now nonce).output
            = Bytes.ascii "valid" ++ [Ascii.newline] := by
  constructor
  · intro r hid hip hsignature htime
    have hjudges := Record.judges_reply ⟨hid, hip, hsignature, htime⟩ henv now nonce
    rw [← hsecret] at hjudges
    rwa [← propext (verify_eq_true_iff_of_standard hs trail r)] at hjudges
  · intro e seed hip htime
    obtain ⟨r, after, hlog, rfl, hid, hnow, hsignature⟩ := perform_log_of_standard hs trail e seed
    have hexpressible : r.Expressible := by
      refine ⟨?_, hip, ?_, ?_⟩
      · rw [hid]
        exact Record.notMem_newId (by decide) (by decide) seed
      · rw [hsignature]
        exact Hex.zero_notMem_encode _
      · rw [hnow]
        exact htime
    refine ⟨r, after, hlog, ?_⟩
    rw [hsecret] at hsignature
    exact (Record.judges_reply hexpressible henv now nonce).accepts.mpr hsignature

/-- With the secret in a file, a record that was logged is valid, and one without a signature is not. -/
theorem Trail.verifies_offline_from_file :
    let env : Environment := { secretFile := some (Bytes.ascii "key") }
    let key := Bytes.ascii "secret" ++ [Ascii.carriageReturn, Ascii.newline]
    let files := FileTree.empty.put (FileTree.empty.home ++ [Bytes.ascii "key"]) (.file key)
    let trail : Trail := ⟨Signer.zeroNonceSigner, []⟩
    (∃ r after, ((trail.log (recordAtEpoch "alice" "10.0.0.1" []).toEntry (.zero 16)).perform {}).1
          = .ok (r, after)
        ∧ (Command.verify.reply r.arguments env files .epoch (.zero 16)).exit = 0)
      ∧ (Command.verify.reply (recordAtEpoch "alice" "10.0.0.1" []).arguments env files .epoch
          (.zero 16)).exit = 1 := by
  intro env key files trail
  have henv : env.Provides files (Bytes.ascii "secret") := Environment.provides_of_read rfl
  have hsecret : trail.signer.secret = Bytes.ascii "secret" := rfl
  obtain ⟨hjudges, hlogged⟩ := verifies_offline henv hsecret (s := {}) rfl .epoch (.zero 16)
  constructor
  · obtain ⟨r, after, hlog, hexit, -⟩ :=
      hlogged (recordAtEpoch "alice" "10.0.0.1" []).toEntry (.zero 16) (by decide) (by decide)
    exact ⟨r, after, hlog, hexit⟩
  · have hunsigned : ((trail.verify (recordAtEpoch "alice" "10.0.0.1" [])).perform {}).1 ≠ .ok true := by
      rw [Ne, verify_eq_true_iff_signature, Signer.perform_verify_of_length_ne (by decide)]
      intro h
      cases h
    exact ((hjudges (recordAtEpoch "alice" "10.0.0.1" []) (by decide) (by decide) (by decide)
      (by decide)).rejects hunsigned).1

end SignedAudit
