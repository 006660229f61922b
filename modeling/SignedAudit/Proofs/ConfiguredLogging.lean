import SignedAudit.Proofs.Requests
import SignedAudit.Proofs.Startup

namespace SignedAudit

/-! # How far the configured logging governs a run

All that a run reports it reports while a signer is opened, and so the lines of a run are those of a few
reports. They follow the configuration, in where they go and in what is grave enough, with one exception: a weak
secret is reported as soon as the configuration is loaded, before the log is directed, and so it goes to the
console whatever the configuration says. -/

open Effect

variable {digest : Bytes → Digest}

/-! ## What a run reports -/

/-- A question to the provider is no report. -/
theorem System.Attended.heard_asked {s : System} (h : s.Attended digest) (calls : Nat) :
    s.Heard digest [] { s with calls } :=
  ⟨System.gains_of_eq rfl rfl rfl, rfl, rfl, h.digests, h.subscribers, h.idle, h.isOpen⟩

/-- What is reported after a decision: only a request opens a signer. -/
def Decision.reports (env : Environment) (files : FileTree) : Except Failure Decision → List Report
  | .ok (.request _) => Config.reports env files
  | .ok (.reply _) => []
  | .error _ => []

/-- What is reported during a run. -/
def Invocation.reports (i : Invocation) (now : Instant) (files : FileTree) : List Report :=
  Decision.reports i.zeroTerminated.environment files (i.zeroTerminated.decision? now files)

namespace Command

/-- Opening the signer is all that is heard of a request. -/
theorem heard_carryOut {s : System} (h : s.Attended digest) (hp : s.provider.Answers)
    (hlogger : s.logger = {}) (i : Invocation) (decision : Except Failure Decision) :
    s.Heard digest (Decision.reports i.environment s.files decision)
      ((carryOut i decision).perform s).2 := by
  rcases decision with f | reply | request
  · exact h.heard_nil
  · exact h.heard_nil
  · have hconsole : s.logger.sink = .console := by rw [hlogger]
    obtain ⟨hopen, -, hprovider⟩ := perform_openSigner h.tended hconsole i
    have hopened := heard_openSigner h hlogger i
    unfold carryOut
    cases hsecret : Config.secret? i.environment s.files with
    | error f =>
        rw [hsecret] at hopen
        rw [perform_bind_of_error hopen]
        exact hopened
    | ok secret =>
        -- the signer asks the provider that the run began with
        rw [hsecret] at hopen
        rw [← hprovider] at hp
        obtain ⟨reply, calls, hanswer, -⟩ := Request.perform_answer hp i secret request
        rw [perform_bind_of_ok hopen, hanswer]
        have hall := hopened.trans (hopened.attended.heard_asked calls)
        rw [List.append_nil] at hall
        exact hall

end Command

namespace Invocation

/-- **What is heard of a run are its reports.** -/
theorem heard_run {p : Provider} (hanswers : p.Answers) (hdigests : p.Digests digest) (i : Invocation)
    (now : Instant) (files : FileTree) :
    (System.atStartWith p now files).Heard digest (i.reports now files)
      (i.run (System.atStartWith p now files)).2 := by
  rw [system_run, perform_act]
  exact Command.heard_carryOut (System.attended_atStartWith hdigests now files) hanswers rfl i.zeroTerminated _

end Invocation

/-! ## What the configuration governs -/

/-- **A report is governed by a configuration**: it goes where the configuration says, and it is grave enough. -/
structure Report.IsGoverned (config : Config) (files : FileTree) (r : Report) : Prop where
  sink : r.logger.sink = config.sink files
  minimum : config.minimum.rank ≤ r.event.severity.rank

namespace Config

/-- A log that could be directed goes to the console exactly if no file is configured. -/
theorem sink_eq_console_iff {config : Config} {files : FileTree} (h : config.directed files = .ok ()) :
    config.sink files = .console ↔ config.logFile = none := by
  unfold directed at h
  unfold sink
  cases hfile : config.logFile with
  | none => simp
  | some path =>
      rw [hfile] at h
      dsimp only at h
      cases hopen : files.openAppend path.untilZero with
      | error error =>
          rw [hopen] at h
          cases h
      | ok opened => simp [Logger.sinkAt?, hopen]

theorem mem_secretReports {logger : Logger} {source : Source} {secret : Bytes} {r : Report} :
    r ∈ secretReports logger source secret
      ↔ isWeak secret = true ∧ r = ⟨logger, weakEvent source secret.length⟩ := by
  unfold secretReports
  split
  · next hweak => simp [hweak]
  · next hweak => simp [hweak]

end Config

/-- What a signer reports, it reports to one log. -/
theorem Signer.logger_of_mem_reports {logger : Logger} {secret : Bytes} {r : Report}
    (h : r ∈ reports logger secret) : r.logger = logger := by
  rcases List.mem_cons.mp h with rfl | h
  · rfl
  · split at h
    · rw [List.mem_singleton.mp h]
    · cases h

namespace Config

variable {env : Environment} {files : FileTree} {config : Config} {source : Source}

/-- What a signer reports is governed, if it is written. -/
theorem isGoverned_of_mem_signerReports {r : Report}
    (h : r ∈ Signer.reports (config.logger files) config.secret) (hwritten : r.IsWritten) :
    r.IsGoverned config files := by
  have hlogger := Signer.logger_of_mem_reports h
  unfold Report.IsWritten at hwritten
  rw [hlogger] at hwritten
  exact ⟨by rw [hlogger]; rfl, hwritten⟩

theorem reports_eq (hread : read env files = .ok (config, source)) :
    reports env files = secretReports {} source config.secret ++ config.signerReports files := by
  rw [reports, hread]

/-- Only the report of a weak secret can be written without being governed. -/
theorem isGoverned_or_isWeak (hread : read env files = .ok (config, source)) {r : Report}
    (h : r ∈ reports env files) (hwritten : r.IsWritten) :
    r.IsGoverned config files
      ∨ isWeak config.secret = true ∧ r = ⟨{}, weakEvent source config.secret.length⟩ := by
  rw [reports_eq hread] at h
  rcases List.mem_append.mp h with h | h
  · exact .inr (mem_secretReports.mp h)
  · unfold signerReports at h
    split at h
    · cases h
    · exact .inl (isGoverned_of_mem_signerReports h hwritten)

/-- The report of a weak secret is governed exactly if the console is what is configured, and warnings are kept. -/
theorem isGoverned_weakEvent_iff (hdirected : config.directed files = .ok ()) (keyBytes : Nat) :
    (⟨{}, weakEvent source keyBytes⟩ : Report).IsGoverned config files
      ↔ config.logFile = none ∧ config.minimum.rank ≤ Severity.warning.rank := by
  constructor
  · intro h
    exact ⟨(sink_eq_console_iff hdirected).mp h.sink.symm, h.minimum⟩
  · rintro ⟨hnone, hminimum⟩
    exact ⟨((sink_eq_console_iff hdirected).mpr hnone).symm, hminimum⟩

/-- **All that is written is governed exactly if no weak secret would be reported otherwise.** -/
theorem forall_isGoverned_iff (hread : read env files = .ok (config, source))
    (hdirected : config.directed files = .ok ()) :
    (∀ r ∈ reports env files, r.IsWritten → r.IsGoverned config files)
      ↔ (isWeak config.secret = true →
        config.logFile = none ∧ config.minimum.rank ≤ Severity.warning.rank) := by
  constructor
  · intro h hweak
    have hmem : (⟨{}, weakEvent source config.secret.length⟩ : Report) ∈ reports env files := by
      rw [reports_eq hread]
      exact List.mem_append_left _ (mem_secretReports.mpr ⟨hweak, rfl⟩)
    -- the log of the start keeps warnings, so that the report is written in any case
    have hwritten : (⟨{}, weakEvent source config.secret.length⟩ : Report).IsWritten :=
      show Severity.info.rank ≤ Severity.warning.rank by decide
    exact (isGoverned_weakEvent_iff hdirected _).mp (h _ hmem hwritten)
  · intro h r hr hwritten
    rcases isGoverned_or_isWeak hread hr hwritten with hgoverned | ⟨hweak, rfl⟩
    · exact hgoverned
    · exact (isGoverned_weakEvent_iff hdirected _).mpr (h hweak)

end Config

namespace Invocation

/-- **The configured logging governs a run, unless the secret is weak.** The sinks gain what the reports of the
run come to, and nothing else. Whenever the configuration can be loaded, each report that is written is governed,
apart from the one of a weak secret. When a signer is opened and the log can be directed, too, all of them are
governed exactly if the secret is not weak, or the console is configured and warnings are kept. -/
theorem logging_governs_unless_weak {p : Provider} (hanswers : p.Answers) (hdigests : p.Digests digest)
    (i : Invocation) (now : Instant) (files : FileTree) :
    (System.atStartWith p now files).Gains
        ((i.reports now files).flatMap (Report.lines digest now.logText))
        (i.run (System.atStartWith p now files)).2
      ∧ ∀ config source, Config.read i.zeroTerminated.environment files = .ok (config, source) →
        (∀ r ∈ i.reports now files, r.IsWritten → r.IsGoverned config files
            ∨ Config.isWeak config.secret = true
              ∧ r = ⟨{}, Config.weakEvent source config.secret.length⟩)
          ∧ ∀ request, i.zeroTerminated.decision? now files = .ok (.request request) →
            config.directed files = .ok () →
            ((∀ r ∈ i.reports now files, r.IsWritten → r.IsGoverned config files)
              ↔ (Config.isWeak config.secret = true →
                config.logFile = none ∧ config.minimum.rank ≤ Severity.warning.rank)) := by
  refine ⟨(heard_run hanswers hdigests i now files).gains, ?_⟩
  intro config source hread
  constructor
  · intro r hr hwritten
    unfold reports Decision.reports at hr
    split at hr
    · exact Config.isGoverned_or_isWeak hread hr hwritten
    · cases hr
    · cases hr
  · intro request hrequest hdirected
    have hreports : i.reports now files = Config.reports i.zeroTerminated.environment files := by
      rw [reports, hrequest]
      rfl
    rw [hreports]
    exact Config.forall_isGoverned_iff hread hdirected

/-- A statement is signed with this secret, and events from this severity on are to be kept in a file. -/
def signing (secret minimum : String) : Invocation where
  arguments := [Bytes.ascii "sign", Bytes.ascii "--event-id=event",
    Bytes.ascii "--timestamp=1970-01-01T00:00:00Z", Bytes.ascii "--source-ip=10.0.0.1", Bytes.ascii "--payload=1"]
  environment := {
    secret := some (Bytes.ascii secret)
    logFile := some (Bytes.ascii "/log")
    logMinSeverity := some (Bytes.ascii minimum) }
  nonce := FixedBytes.zero 16

/-- With a secret that is not weak, all that is reported goes to the file. -/
theorem logging_governs_unless_weak_secret :
    ((signing "secret" "info").run (.atStart .epoch .empty)).2.console = []
      ∧ ((signing "secret" "info").run (.atStart .epoch .empty)).2.written (.file [Bytes.ascii "log"])
        = (Signer.readyEvent 6).kept Sha256.hash Instant.epoch.logText ++ [Ascii.newline]
      ∧ ∀ r ∈ (signing "secret" "info").reports .epoch .empty, r.IsWritten →
        r.IsGoverned ⟨Bytes.ascii "secret", some (Bytes.ascii "/log"), .info⟩ .empty := by
  obtain ⟨hgains, hgoverned⟩ := logging_governs_unless_weak Provider.answers_standard Provider.digests_standard
    (signing "secret" "info") .epoch .empty
  have hreports : (signing "secret" "info").reports .epoch .empty
      = [⟨⟨.file [Bytes.ascii "log"], .info⟩, Signer.readyEvent 6⟩] := by
    decide +kernel
  rw [hreports] at hgains
  obtain ⟨-, hgoverned⟩ := hgoverned ⟨Bytes.ascii "secret", some (Bytes.ascii "/log"), .info⟩
    (.inline (Bytes.ascii "secret")) (by decide +kernel)
  refine ⟨(hgains.written .console).trans (by decide +kernel), (hgains.written _).trans (by decide +kernel), ?_⟩
  exact (hgoverned (.signature (Signer.eventAtEpoch "event" "10.0.0.1" "1")) rfl rfl).mpr
    fun hweak => absurd hweak (by decide +kernel)

/-- **A weak secret is reported past the configuration**: to the console, though a file is configured and could be
opened, and as a warning, though only errors are to be kept. -/
theorem weak_secret_passes_configuration :
    ((signing "" "error").run (.atStart .epoch .empty)).1.exit = 0
      ∧ ((signing "" "error").run (.atStart .epoch .empty)).2.logger = ⟨.file [Bytes.ascii "log"], .error⟩
      ∧ ((signing "" "error").run (.atStart .epoch .empty)).2.written (.file [Bytes.ascii "log"]) = []
      ∧ ((signing "" "error").run (.atStart .epoch .empty)).2.console
        = (Config.weakEvent (.inline []) 0).kept Sha256.hash Instant.epoch.logText ++ [Ascii.newline] := by
  obtain ⟨hgains, -⟩ := heard_run Provider.answers_standard Provider.digests_standard (signing "" "error")
    .epoch .empty
  have hreports : (signing "" "error").reports .epoch .empty
      = ⟨{}, Config.weakEvent (.inline []) 0⟩ :: Signer.reports ⟨.file [Bytes.ascii "log"], .error⟩ [] := by
    decide +kernel
  rw [hreports] at hgains
  refine ⟨by decide +kernel, by decide +kernel, (hgains.written _).trans (by decide +kernel), ?_⟩
  exact (hgains.written .console).trans (by decide +kernel)

end Invocation

end SignedAudit
