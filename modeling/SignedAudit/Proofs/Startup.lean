import SignedAudit.Proofs.Opening
import SignedAudit.Proofs.Routing

namespace SignedAudit

/-! # What opening a signer reports

While a signer is opened, a weak secret is reported, then the log is directed as configured, and then the signer
reports that it is ready, and that its secret is empty if it is. Every report is given to the log as it stands at
that moment and comes to one line at most. With a provider whose digests are a function of the data, the sinks
gain what the reports come to, in their order, and nothing else. The report of a weak secret is the one that
still finds the log as it was when the run began. -/

open Effect

variable {digest : Bytes → Digest}

/-! ## Reports -/

/-- An event that is given to a log. -/
structure Report where
  logger : Logger
  event : Event
  deriving DecidableEq, Repr

namespace Report

/-- Is the event grave enough for the log? -/
def IsWritten (r : Report) : Prop := r.logger.minimum.rank ≤ r.event.severity.rank

instance : DecidablePred IsWritten := fun r => inferInstanceAs (Decidable (_ ≤ r.event.severity.rank))

/-- What a report comes to. -/
def lines (digest : Bytes → Digest) (time : Bytes) (r : Report) : List Line :=
  if r.IsWritten then [⟨r.logger.sink, r.event.kept digest time ++ [Ascii.newline]⟩] else []

end Report

/-- With a provider that digests, what a log writes depends on the time only. -/
theorem Logger.lines_eq {s : System} (hp : s.provider.Digests digest) (logger : Logger) {e : Event}
    (hid : e.id.length ≤ 2600) : logger.lines e s = Report.lines digest s.now.logText ⟨logger, e⟩ := by
  obtain ⟨calls, hline⟩ := Event.answer_logLine_of_keptAs hp (Event.keptAs_kept hid s.now) s.calls
  unfold Logger.lines Event.lineIn Report.lines
  rw [hline]
  by_cases hwritten : Report.IsWritten ⟨logger, e⟩
  · rw [if_neg (Nat.not_lt.mpr hwritten), if_pos hwritten]
  · rw [if_pos (Nat.not_le.mp hwritten), if_neg hwritten]

namespace System

/-- **Attended**: the log is the only subscriber, it can be written to, no event is being delivered, and the
provider digests. -/
structure Attended (digest : Bytes → Digest) (s : System) : Prop where
  digests : s.provider.Digests digest
  subscribers : s.subscribers = [.logger]
  idle : s.publishing = false
  isOpen : s.IsOpen s.logger.sink

theorem Attended.tended {s : System} (h : s.Attended digest) : s.Tended := by
  refine ⟨h.subscribers, ?_⟩
  intro call data message hdigest
  rw [h.digests] at hdigest
  cases hdigest

/-- **What was reported meanwhile**: the sinks have gained what the reports come to, and the system is attended
as it was before. -/
structure Heard (digest : Bytes → Digest) (s : System) (reports : List Report) (t : System) : Prop where
  gains : s.Gains (reports.flatMap (Report.lines digest s.now.logText)) t
  provider : t.provider = s.provider
  now : t.now = s.now
  attended : t.Attended digest

theorem Attended.heard_nil {s : System} (h : s.Attended digest) : s.Heard digest [] s :=
  ⟨s.gains_refl, rfl, rfl, h⟩

theorem Heard.trans {s t u : System} {reports more : List Report} (h : s.Heard digest reports t)
    (h' : t.Heard digest more u) : s.Heard digest (reports ++ more) u := by
  refine ⟨?_, h'.provider.trans h.provider, h'.now.trans h.now, h'.attended⟩
  have hmore := h'.gains
  rw [h.now] at hmore
  rw [List.flatMap_append]
  exact h.gains.trans hmore

/-- **A publication is a report to the log.** -/
theorem Attended.heard_publish {s : System} (h : s.Attended digest) {e : Event} (hid : e.id.length ≤ 2600) :
    s.Heard digest [⟨s.logger, e⟩] ((Bus.publish e).perform s).2 := by
  obtain ⟨hprovider, hsubscribers, hlogger, -⟩ := Bus.frame_publish_of_logger h.subscribers e
  have hopen : System.IsOpen { s with publishing := true } s.logger.sink := h.isOpen
  have hlog := Logger.gains_log hopen e
  rw [Logger.lines_eq (s := { s with publishing := true }) h.digests s.logger hid] at hlog
  -- the mark of a publication is in no sink
  have hgains : s.Gains (Report.lines digest s.now.logText ⟨s.logger, e⟩) ((Bus.publish e).perform s).2 := by
    rw [Bus.perform_publish_of_logger h.subscribers h.idle]
    exact ⟨hlog.written, hlog.isOpen⟩
  refine ⟨?_, hprovider, ?_, ?_, ?_, ?_, ?_⟩
  · rw [List.flatMap_singleton]
    exact hgains
  · rw [Bus.perform_publish_of_logger h.subscribers h.idle]
    exact s.logger.now_log e { s with publishing := true }
  · rw [hprovider]
    exact h.digests
  · rw [hsubscribers, h.subscribers]
  · rw [Bus.perform_publish_of_logger h.subscribers h.idle]
  · rw [hlogger]
    exact hgains.isOpen _ h.isOpen

/-- The system at the start of a run, with a provider of one's own. -/
def atStartWith (p : Provider) (now : Instant) (files : FileTree) : System :=
  { atStart now files with provider := p }

theorem attended_atStartWith {p : Provider} (hp : p.Digests digest) (now : Instant) (files : FileTree) :
    (atStartWith p now files).Attended digest :=
  ⟨hp, rfl, rfl, trivial⟩

end System

/-! ## The configuration -/

namespace Config

/-- Where the log goes once it is directed. -/
def sink (config : Config) (files : FileTree) : Sink :=
  (config.logFile.bind (Logger.sinkAt? files)).getD .console

/-- The log as it is configured. -/
def logger (config : Config) (files : FileTree) : Logger := ⟨config.sink files, config.minimum⟩

/-- What is reported of a secret while the configuration is loaded. -/
def secretReports (logger : Logger) (source : Source) (secret : Bytes) : List Report :=
  if isWeak secret then [⟨logger, weakEvent source secret.length⟩] else []

/-- **Loading a configuration reports a weak secret** to the log as it is, and leaves the log as it is. -/
theorem heard_load {s : System} (h : s.Attended digest) (env : Environment) :
    s.Heard digest
        (match read env s.files with
        | .error _ => []
        | .ok (config, source) => secretReports s.logger source config.secret)
        ((load env).perform s).2
      ∧ ((load env).perform s).2.logger = s.logger := by
  rw [perform_load_eq]
  unfold secretReports
  rcases read env s.files with cause | ⟨config, source⟩
  · exact ⟨h.heard_nil, rfl⟩
  · dsimp only
    split
    · obtain ⟨-, -, hlogger, -⟩ :=
        Bus.frame_publish_of_logger h.subscribers (weakEvent source config.secret.length)
      exact ⟨h.heard_publish (show (Bytes.ascii "weak_audit_secret").length ≤ 2600 by decide), hlogger⟩
    · exact ⟨h.heard_nil, rfl⟩

/-- **Directing the log reports nothing**, and if it succeeds, the log is as it is configured. -/
theorem heard_apply {s : System} (h : s.Attended digest) (hconsole : s.logger.sink = .console)
    (config : Config) :
    s.Heard digest [] ((apply config).perform s).2
      ∧ (config.directed s.files = .ok () →
        ((apply config).perform s).2.logger = config.logger s.files) := by
  obtain ⟨hlogger, hopen, hgains⟩ := Logger.logger_turn h.isOpen (.configure config)
  obtain ⟨houtcome, htended, hprovider⟩ := perform_apply h.tended config
  have hframe : ((apply config).perform s).2.now = s.now
      ∧ ((apply config).perform s).2.publishing = s.publishing := by
    rw [show (apply config).perform s = _ from Logger.perform_configure config s]
    cases config.logFile with
    | none => exact ⟨rfl, rfl⟩
    | some path =>
        dsimp only
        cases s.files.openAppend path.untilZero <;> exact ⟨rfl, rfl⟩
  refine ⟨⟨hgains, hprovider, hframe.1, ?_, htended.subscribers, hframe.2.trans h.idle, hopen⟩, ?_⟩
  · rw [hprovider]
    exact h.digests
  · intro hdirected
    have hok : (Logger.Call.turn (.configure config) s).outcome = .ok () := houtcome.trans hdirected
    -- that the call did not fail is what puts its settings into force
    have hset : (Logger.Call.turn (.configure config) s).redirection?
          = config.logFile.bind (Logger.sinkAt? s.files)
        ∧ (Logger.Call.turn (.configure config) s).minimum? = some config.minimum := by
      unfold Logger.Turn.redirection? Logger.Turn.minimum?
      rw [hok]
      exact ⟨rfl, rfl⟩
    show (Logger.Call.turn (.configure config) s).after.logger = _
    rw [hlogger, hset.1, hset.2, hconsole]
    rfl

end Config

/-! ## The signer -/

namespace Signer

/-- What is reported while a signer is made ready. -/
def reports (logger : Logger) (secret : Bytes) : List Report :=
  ⟨logger, readyEvent secret.length⟩ :: if secret = [] then [⟨logger, emptySecretEvent⟩] else []

/-- **Making a signer ready reports** that it is ready, and that the secret is empty if it is. -/
theorem heard_create {s : System} (h : s.Attended digest) (secret : Bytes) (source : NonceSource) :
    s.Heard digest (reports s.logger secret) ((create secret source).perform s).2 := by
  obtain ⟨hok, -⟩ := h.tended.publish (readyEvent secret.length)
  have hid : (readyEvent secret.length).id.length ≤ 2600 :=
    show (Bytes.ascii "event_signer_initialized").length ≤ 2600 by decide
  have hready := h.heard_publish hid
  obtain ⟨-, -, hlogger, -⟩ := Bus.frame_publish_of_logger h.subscribers (readyEvent secret.length)
  unfold create reports
  rw [perform_bind_of_ok hok]
  split
  · obtain ⟨hok, -⟩ := hready.attended.tended.publish emptySecretEvent
    have hempty := hready.attended.heard_publish (show emptySecretEvent.id.length ≤ 2600 by decide)
    rw [hlogger] at hempty
    rw [perform_bind_of_ok hok]
    exact hready.trans hempty
  · exact hready

end Signer

namespace Config

/-- What is reported once the log is directed, if it can be. -/
def signerReports (config : Config) (files : FileTree) : List Report :=
  match config.directed files with
  | .error _ => []
  | .ok _ => Signer.reports (config.logger files) config.secret

/-- **What opening a signer reports**: a weak secret to the log as it is at first, and to the log as it is
configured that the signer is ready. -/
def reports (env : Environment) (files : FileTree) : List Report :=
  match read env files with
  | .error _ => []
  | .ok (config, source) => secretReports {} source config.secret ++ config.signerReports files

end Config

/-- **Opening a signer gives these reports**, and no others, to a log that stands as at the start of a run. -/
theorem Command.heard_openSigner {s : System} (h : s.Attended digest) (hlogger : s.logger = {})
    (i : Invocation) :
    s.Heard digest (Config.reports i.environment s.files) ((openSigner i).perform s).2 := by
  have hconsole : s.logger.sink = .console := by rw [hlogger]
  obtain ⟨hload, -, -, hfiles⟩ := Config.perform_load h.tended hconsole i.environment
  obtain ⟨hloaded, hloadedLogger⟩ := Config.heard_load h i.environment
  unfold openSigner Config.reports
  unfold Config.loaded at hload
  rw [hlogger] at hloaded
  generalize hread : Config.read i.environment s.files = read at hload hloaded ⊢
  rcases read with cause | ⟨config, source⟩
  · rw [perform_bind_of_error hload]
    exact hloaded
  · have hloadedConsole : ((Config.load i.environment).perform s).2.logger.sink = .console := by
      rw [hloadedLogger, hconsole]
    -- loading has left the files alone, so that directing the log finds those of the start
    obtain ⟨hdirect, -, -⟩ := Config.perform_apply hloaded.attended.tended config
    obtain ⟨hdirected, hdirectedLogger⟩ := Config.heard_apply hloaded.attended hloadedConsole config
    rw [hfiles] at hdirect hdirectedLogger
    rw [perform_bind_of_ok hload]
    dsimp only [Config.signerReports]
    cases hlog : config.directed s.files with
    | error f =>
        rw [perform_bind_of_error (hdirect.trans hlog)]
        exact hloaded.trans hdirected
    | ok _ =>
        have hready := Signer.heard_create hdirected.attended config.secret fun _ _ => .ok i.nonce
        rw [hdirectedLogger hlog] at hready
        rw [perform_bind_of_ok (hdirect.trans hlog)]
        exact hloaded.trans (hdirected.trans hready)

end SignedAudit
