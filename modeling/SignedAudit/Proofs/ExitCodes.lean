import SignedAudit.Proofs.Replies
import SignedAudit.Proofs.Startup

namespace SignedAudit

/-! # What an exit code says about the output

A script that runs a command looks at the exit code and at the output. Success comes with one line, which is what
the command is for; a rejection comes with one word; and a run that fails prints nothing of a result. A wrong use
or input is noticed before a signer is opened, and so nothing is logged then. -/

open Effect

variable {digest : Bytes → Digest}

/-! ## The contract -/

/-- **What a command prints if it succeeds.** -/
def Command.Prints : Command → Bytes → Prop
  | .sign, text => text.length = 64 ∧ ∀ b ∈ text, Hex.isDigit b = true
  | .signIngestion, text => text.length = 64 ∧ ∀ b ∈ text, Hex.isDigit b = true
  | .verify, text => text = Bytes.ascii "valid"
  | .timestamp, text => text.length = 30 ∧ ∃ t : Instant, text = t.canonicalText

/-- The word for a rejection. -/
def Reply.rejection : Bytes := Bytes.ascii "invalid" ++ [Ascii.newline]

/-- **A reply keeps the contract** of exit codes, after a run of a command, if there is one, that has logged this
text to the console. -/
structure Reply.Keeps (command : Option Command) (console : Bytes) (reply : Reply) : Prop where
  code : reply.exit ≤ 3
  success : reply.exit = 0 → ∃ c text, command = some c ∧ c.Prints text ∧ Ascii.newline ∉ text
    ∧ reply.output = text ++ [Ascii.newline]
  rejects_iff : reply.exit = 1 ↔ reply.output = rejection
  rejects : reply.exit = 1 → command = some .verify
  misuse : reply.exit = 2 → console = []
    ∧ (reply.output = usageText ∧ reply.errors = []
      ∨ reply.output = [] ∧ ∃ fault : Fault, fault.domain = .validation
        ∧ reply.errors = Bytes.ascii "Error: " ++ fault.message.untilZero ++ [Ascii.newline])
  failure : reply.exit = 3 → reply.output = [] ∧ reply.errors ≠ []
  nothingPartial : reply.exit ≠ 0 → reply.output ∈ [usageText, rejection, []]

namespace Command

theorem prints_signature (d : Digest) :
    (Signature.ofDigest d).length = 64 ∧ ∀ b ∈ Signature.ofDigest d, Hex.isDigit b = true :=
  ⟨Signature.length_ofDigest d, fun _ hb => Hex.isDigit_of_mem_encode hb⟩

/-- What a command prints is one line, and it is not a rejection. -/
theorem Prints.newline_notMem {c : Command} {text : Bytes} (h : c.Prints text) : Ascii.newline ∉ text := by
  have hdigits : (∀ b ∈ text, Hex.isDigit b = true) → Ascii.newline ∉ text := by
    intro hall hmem
    exact absurd (hall _ hmem) (by decide)
  cases c with
  | sign => exact hdigits h.2
  | signIngestion => exact hdigits h.2
  | verify =>
      rw [show text = _ from h]
      decide
  | timestamp =>
      obtain ⟨t, htext⟩ := h.2
      rw [htext]
      intro hmem
      rcases Instant.mem_canonicalText hmem with hdigit | hmark
      · exact absurd hdigit (by decide)
      · exact absurd hmark (by decide)

theorem Prints.ne_rejection {c : Command} {text : Bytes} (h : c.Prints text) :
    text ++ [Ascii.newline] ≠ Reply.rejection := by
  -- of the lines that are printed only a verdict is about as short
  intro heq
  have hinvalid : text = Bytes.ascii "invalid" := List.append_cancel_right heq
  have hlength : text.length = 7 := by rw [hinvalid]; rfl
  cases c with
  | sign => exact absurd (h.1.symm.trans hlength) (by decide)
  | signIngestion => exact absurd (h.1.symm.trans hlength) (by decide)
  | verify => exact absurd (hinvalid.symm.trans h) (by decide)
  | timestamp => exact absurd (h.1.symm.trans hlength) (by decide)

end Command

/-! ## Replies that keep it -/

namespace Reply

variable {command : Option Command} {console : Bytes}

theorem output_usage : usage.output = usageText := by rw [usage]

set_option maxRecDepth 4096 in
/-- The description begins with a capital letter. The text is long, so that only its first letter is looked at. -/
theorem head?_usageText : usageText.head? = some 85 := by
  unfold usageText Bytes.ascii
  rw [List.head?_map]
  exact congrArg _ (congrArg List.head? String.toList_ofList)

theorem usageText_ne_rejection : usageText ≠ rejection := by
  intro h
  have hhead := head?_usageText
  rw [h] at hhead
  exact absurd hhead (by decide)

/-- The description of the commands, where nothing was logged. -/
theorem keeps_usage (command : Option Command) : Keeps command [] usage where
  code := Nat.le_succ 2
  success h := by cases h
  rejects_iff := by
    rw [output_usage]
    exact iff_of_false (by decide) usageText_ne_rejection
  rejects h := by cases h
  misuse _ := ⟨rfl, .inl ⟨output_usage, rfl⟩⟩
  failure h := by cases h
  nothingPartial _ := by
    rw [output_usage]
    exact List.mem_cons_self

/-- A line that the command prints. -/
theorem keeps_line {c : Command} {text : Bytes} (h : c.Prints text) : Keeps (some c) console (line text) where
  code := Nat.zero_le 3
  success _ := ⟨c, text, rfl, h, h.newline_notMem, rfl⟩
  rejects_iff := ⟨fun hexit => absurd hexit Nat.zero_ne_one, fun hout => absurd hout h.ne_rejection⟩
  rejects hexit := absurd hexit Nat.zero_ne_one
  misuse hexit := by cases hexit
  failure hexit := by cases hexit
  nothingPartial hexit := absurd rfl hexit

/-- Whatever it says beside, a rejection is one of `verify`. -/
theorem keeps_rejection (errors : Bytes) :
    Keeps (some .verify) console { exit := 1, output := rejection, errors } where
  code := Nat.le_add_left 1 2
  success h := by cases h
  rejects_iff := ⟨fun _ => rfl, fun _ => rfl⟩
  rejects _ := rfl
  misuse h := by cases h
  failure h := by cases h
  nothingPartial _ := List.mem_cons_of_mem _ List.mem_cons_self

theorem keeps_verdict (valid : Bool) : Keeps (some .verify) console (verdict valid) := by
  cases valid with
  | true => exact keeps_line (c := .verify) rfl
  | false => exact keeps_rejection []

/-- **A failure prints nothing.** If the input is to blame, nothing may have been logged. -/
theorem keeps_ofFailure {f : Failure}
    (h : ∀ fault, f = .fault fault → fault.domain = .validation → console = []) :
    Keeps command console (ofFailure f) := by
  have houtput : (ofFailure f).output = [] := by cases f <;> rfl
  have herrors : (ofFailure f).errors ≠ [] := by
    cases f <;> exact List.append_ne_nil_of_right_ne_nil _ (List.cons_ne_nil _ _)
  have hexit : (ofFailure f).exit = 3
      ∨ (ofFailure f).exit = 2 ∧ ∃ fault, f = .fault fault ∧ fault.domain = .validation := by
    cases f with
    | other message => exact .inl rfl
    | fault fault =>
        by_cases hdomain : fault.domain = .validation
        · exact .inr ⟨if_pos hdomain, fault, rfl, hdomain⟩
        · exact .inl (if_neg hdomain)
  refine ⟨by omega, by omega, ?_, by omega, ?_, fun _ => ⟨houtput, herrors⟩, ?_⟩
  · rw [houtput]
    exact ⟨by omega, fun hnil => absurd hnil (by decide)⟩
  · intro htwo
    rcases hexit with hthree | ⟨-, fault, rfl, hdomain⟩
    · exact absurd (htwo.symm.trans hthree) (by decide)
    · exact ⟨h fault rfl hdomain, .inr ⟨houtput, fault, hdomain, rfl⟩⟩
  · intro _
    rw [houtput]
    simp

end Reply

/-! ## Every run keeps it -/

namespace Config

variable {env : Environment} {files : FileTree}

/-- **The input is not to blame** for a cause that keeps a configuration from being loaded. -/
theorem domain_ne_of_read_error {cause : Cause} (h : read env files = .error cause) :
    cause.fault.domain ≠ .validation := by
  simp only [read, bind, Except.bind] at h
  split at h
  · next missing hsource =>
      cases h
      unfold source? at hsource
      split at hsource <;> cases hsource <;> exact Domain.noConfusion
  · split at h
    · next unknown hminimum =>
        cases h
        unfold minimum? at hminimum
        repeat' split at hminimum
        all_goals cases hminimum
        exact Domain.noConfusion
    · split at h
      · next unreadable hsecret =>
          cases h
          unfold Source.read at hsecret
          repeat' split at hsecret
          all_goals cases hsecret
          exact Domain.noConfusion
      · cases h

theorem secret?_of_read {config : Config} {source : Source} (h : read env files = .ok (config, source)) :
    secret? env files = (config.directed files).map fun _ => config.secret := by
  unfold secret? loaded
  rw [h]
  show (config.directed files >>= fun _ => Except.ok config.secret) = _
  cases config.directed files <;> rfl

/-- Nor is it for one that keeps the log from being directed. -/
theorem exists_of_secret?_error {f : Failure} (h : secret? env files = .error f) :
    ∃ cause : Cause, f = cause.failure ∧ cause.fault.domain ≠ .validation := by
  cases hread : read env files with
  | error cause =>
      unfold secret? loaded at h
      rw [hread] at h
      cases h
      exact ⟨cause, rfl, domain_ne_of_read_error hread⟩
  | ok read =>
      obtain ⟨config, source⟩ := read
      rw [secret?_of_read hread] at h
      unfold directed at h
      repeat' split at h
      all_goals cases h
      exact ⟨_, rfl, Domain.noConfusion⟩

end Config

namespace Command

variable {s : System} (h : s.Attended digest) (hp : s.provider.Answers) (hlogger : s.logger = {})
  (hconsole : s.console = []) (i : Invocation)

include h hp hlogger

/-- A request keeps the contract if all its answers do, whatever is logged meanwhile. -/
theorem keeps_request {c : Command} {request : Request}
    (hanswers : ∀ reply console, request.IsAnsweredBy reply → reply.Keeps (some c) console) :
    (Reply.ofOutcome ((carryOut i (.ok (.request request))).perform s).1).Keeps (some c)
      ((carryOut i (.ok (.request request))).perform s).2.console := by
  have hsink : s.logger.sink = .console := by rw [hlogger]
  obtain ⟨hopen, -, hprovider⟩ := perform_openSigner h.tended hsink i
  unfold carryOut
  cases hsecret : Config.secret? i.environment s.files with
  | error f =>
      -- the weak secret may have been logged by now, but then the exit code is not the one of a misuse
      obtain ⟨cause, rfl, hdomain⟩ := Config.exists_of_secret?_error hsecret
      rw [hsecret] at hopen
      rw [perform_bind_of_error hopen]
      show Reply.Keeps (some c) _ (Reply.ofFailure cause.failure)
      apply Reply.keeps_ofFailure
      intro fault hfault hvalidation
      cases hfault
      exact absurd hvalidation hdomain
  | ok secret =>
      rw [hsecret] at hopen
      rw [← hprovider] at hp
      obtain ⟨reply, calls, hanswer, hreply⟩ := Request.perform_answer hp i secret request
      rw [perform_bind_of_ok hopen, hanswer]
      exact hanswers reply _ hreply

include hconsole

/-- **What is decided for a command is carried out in keeping with the contract.** -/
theorem keeps_carryOut {c : Command} {decision : Except Failure Decision} (hdecision : c.Decides decision) :
    (Reply.ofOutcome ((carryOut i decision).perform s).1).Keeps (some c)
      ((carryOut i decision).perform s).2.console := by
  cases hdecision with
  | failure c f => exact Reply.keeps_ofFailure fun _ _ _ => hconsole
  | usage c =>
      show Reply.usage.Keeps (some c) s.console
      rw [hconsole]
      exact Reply.keeps_usage (some c)
  | malformedSignature => exact Reply.keeps_rejection _
  | instant t => exact Reply.keeps_line ⟨t.length_canonicalText, t, rfl⟩
  | signature a =>
      apply keeps_request h hp hlogger i
      rintro _ console ⟨⟩
      exact Reply.keeps_line (prints_signature _)
  | verdict a candidate =>
      apply keeps_request h hp hlogger i
      rintro _ console ⟨⟩
      exact Reply.keeps_verdict _
  | receipt r =>
      apply keeps_request h hp hlogger i
      rintro _ console ⟨⟩
      exact Reply.keeps_line (prints_signature _)

end Command

namespace Invocation

/-- **Every run keeps the contract of exit codes**, with a provider that works: whatever the arguments, the
environment and the files are. -/
theorem keeps_exit_codes {p : Provider} (hanswers : p.Answers) (hdigests : p.Digests digest)
    (i : Invocation) (now : Instant) (files : FileTree) :
    (i.run (System.atStartWith p now files)).1.Keeps (i.zeroTerminated.command?.map Prod.fst)
      (i.run (System.atStartWith p now files)).2.console := by
  rw [reply_run, system_run, perform_act]
  unfold decision?
  cases hcommand : i.zeroTerminated.command? with
  | none => exact Reply.keeps_usage none
  | some named =>
      obtain ⟨c, o⟩ := named
      exact Command.keeps_carryOut (System.attended_atStartWith hdigests now files) hanswers rfl rfl
        i.zeroTerminated (Command.decides_decision? c now files o)

/-- A statement is to be signed, and no secret is configured. -/
def withoutSecret : Invocation where
  arguments := [Bytes.ascii "sign", Bytes.ascii "--event-id=event",
    Bytes.ascii "--timestamp=1970-01-01T00:00:00Z", Bytes.ascii "--source-ip=10.0.0.1", Bytes.ascii "--payload=1"]
  environment := {}
  nonce := FixedBytes.zero 16

/-- The failure is told by the exit code, and nothing is printed. -/
theorem keeps_exit_codes_without_secret :
    (withoutSecret.run (.atStart .epoch .empty)).1.exit = 3
      ∧ (withoutSecret.run (.atStart .epoch .empty)).1.output = []
      ∧ (withoutSecret.run (.atStart .epoch .empty)).1.errors ≠ [] := by
  have hkeeps := keeps_exit_codes Provider.answers_standard Provider.digests_standard withoutSecret .epoch .empty
  have hexit : (withoutSecret.run (.atStart .epoch .empty)).1.exit = 3 := by decide +kernel
  exact ⟨hexit, hkeeps.failure hexit⟩

end Invocation

end SignedAudit
