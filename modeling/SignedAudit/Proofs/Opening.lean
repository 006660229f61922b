import SignedAudit.Command
import SignedAudit.Proofs.FileReading
import SignedAudit.Proofs.Signing

namespace SignedAudit

/-! # From an environment to a signer

A run of the command line begins in a system whose log is the only subscriber, and whose provider is the
standard one or another one that does not break publications off. There no publication can fail, so that
opening a signer comes to what the environment and the files alone decide: the secret, or the first fault in
configuration, secret file or log file. The only event that is published before the log file is opened goes
to the console, and so the files are still as they were when the log file is opened. -/

open Effect

namespace System

/-- **In service**: the standard provider answers, and the log is the only subscriber. -/
structure InService (s : System) : Prop where
  provider : s.provider = .standard
  subscribers : s.subscribers = [.logger]

/-- **Tended**: the log is the only subscriber, and nothing keeps it from taking an event: plain digests fail
with faults at most. -/
structure Tended (s : System) : Prop where
  subscribers : s.subscribers = [.logger]
  hashes : ∀ call data message, s.provider.sha256 call data ≠ .error (.other message)

/-- The system at the start of a run. -/
def atStart (now : Instant) (files : FileTree) : System := { now, files }

theorem inService_atStart (now : Instant) (files : FileTree) : (atStart now files).InService := ⟨rfl, rfl⟩

namespace Tended

variable {s : System}

theorem calm (h : s.Tended) : s.Calm := by
  refine ⟨?_, h.hashes⟩
  intro x hx
  rw [h.subscribers] at hx
  rw [List.mem_singleton.mp hx]
  rfl

/-- In a tended system a publication succeeds, and the system stays tended, with the provider it had. -/
theorem publish (h : s.Tended) (e : Event) :
    ((Bus.publish e).perform s).1 = .ok ()
      ∧ ((Bus.publish e).perform s).2.Tended
      ∧ ((Bus.publish e).perform s).2.provider = s.provider := by
  obtain ⟨hok, hcalm⟩ := Bus.perform_publish_of_calm h.calm e
  obtain ⟨hprovider, hsubscribers, -, -⟩ := Bus.frame_publish_of_logger h.subscribers e
  exact ⟨hok, ⟨hsubscribers.trans h.subscribers, hcalm.hashes⟩, hprovider⟩

end Tended

namespace InService

variable {s : System}

theorem tended (h : s.InService) : s.Tended := by
  refine ⟨h.subscribers, ?_⟩
  intro call data message hdigest
  rw [h.provider] at hdigest
  cases hdigest

/-- In service the keyed digest is the standard one. -/
theorem tag_eq (h : s.InService) (signer : Signer) (text : Bytes) :
    signer.tag s text = .ok (Hmac.code signer.secret text) := by
  unfold Signer.tag
  rw [h.provider]
  rfl

end InService

end System

/-! ## The configuration -/

namespace Config

/-- The last line end is dropped, and a carriage return before it. -/
theorem dropLineEnd_concat (front : Bytes) :
    dropLineEnd (front ++ [Ascii.newline])
      = if front.getLast? = some Ascii.carriageReturn then front.dropLast else front := by
  rw [dropLineEnd, if_pos List.getLast?_concat, List.dropLast_concat]

/-- A line end behind a secret does not belong to it. -/
theorem dropLineEnd_append (secret : Bytes) :
    dropLineEnd (secret ++ [Ascii.carriageReturn, Ascii.newline]) = secret := by
  rw [List.append_cons, dropLineEnd_concat, if_pos List.getLast?_concat, List.dropLast_concat]

/-- The secret in a file is its content without a line end. -/
theorem Source.read_file (files : FileTree) (path : Bytes) :
    (Source.file path).read files =
      match files.read path.untilZero with
      | .error error => .error (.secretFileUnreadable path error)
      | .ok content => .ok (dropLineEnd content) := by
  have hpieces := FileTree.readInPieces_eq_read (by decide : 0 < 256) files path.untilZero
  unfold Source.read
  cases hread : files.read path.untilZero <;> simp only [hpieces, hread]

theorem isPlain_weakEvent (source : Source) (keyBytes : Nat) : (weakEvent source keyBytes).IsPlain := by
  simp [Event.IsPlain, weakEvent]

/-- **What loading does**, in whatever system: it reads the configuration, and publishes that the secret is weak if
it is. -/
theorem perform_load_eq (env : Environment) (s : System) :
    (load env).perform s =
      match read env s.files with
      | .error cause => (.error cause.failure, s)
      | .ok (config, source) =>
        if isWeak config.secret then
          (s.objection?.elim (.ok config) .error,
            ((Bus.publish (weakEvent source config.secret.length)).perform s).2)
        else (.ok config, s) := by
  unfold load
  rw [perform_bind, perform_get]
  dsimp only
  rcases read env s.files with cause | ⟨config, source⟩
  · rfl
  · dsimp only
    split
    · have hpublish := Bus.perform_publish_of_isPlain (isPlain_weakEvent source config.secret.length) s
      cases hobjection : s.objection? with
      | none =>
          rw [hobjection] at hpublish
          rw [perform_bind_of_ok hpublish]
          rfl
      | some f =>
          rw [hobjection] at hpublish
          rw [perform_bind_of_error hpublish]
          rfl
    · rfl

/-- What loading comes to. -/
def loaded (env : Environment) (files : FileTree) : Except Failure Config :=
  match read env files with
  | .error cause => .error cause.failure
  | .ok (config, _) => .ok config

/-- What directing the log comes to. -/
def directed (config : Config) (files : FileTree) : Except Failure Unit :=
  match config.logFile with
  | none => .ok ()
  | some path =>
    match files.openAppend path.untilZero with
    | .error error => .error (Cause.logFileUnwritable path error).failure
    | .ok _ => .ok ()

/-- **The secret** that an environment and the files configure, when the log can be directed, too. -/
def secret? (env : Environment) (files : FileTree) : Except Failure Bytes := do
  let config ← loaded env files
  config.directed files
  return config.secret

/-- Loading a configuration leaves the system tended, and the provider and the files as they were. -/
theorem perform_load {s : System} (h : s.Tended) (hconsole : s.logger.sink = .console)
    (env : Environment) :
    ((load env).perform s).1 = loaded env s.files
      ∧ ((load env).perform s).2.Tended
      ∧ ((load env).perform s).2.provider = s.provider
      ∧ ((load env).perform s).2.files = s.files := by
  rw [perform_load_eq]
  unfold loaded
  rcases read env s.files with cause | ⟨config, source⟩
  · exact ⟨rfl, h, rfl, rfl⟩
  · dsimp only
    split
    · -- a weak secret is reported, which succeeds and touches no file
      obtain ⟨-, hafter, hprovider⟩ := h.publish (weakEvent source config.secret.length)
      obtain ⟨-, -, -, hfiles⟩ :=
        Bus.frame_publish_of_logger h.subscribers (weakEvent source config.secret.length)
      refine ⟨?_, hafter, hprovider, hfiles hconsole⟩
      rw [System.objection?_eq_none (by simp [h.subscribers, Subscriber.failure?])]
      rfl
    · exact ⟨rfl, h, rfl, rfl⟩

/-- Directing the log leaves the system tended, and the provider as it was. -/
theorem perform_apply {s : System} (h : s.Tended) (config : Config) :
    ((apply config).perform s).1 = config.directed s.files
      ∧ ((apply config).perform s).2.Tended
      ∧ ((apply config).perform s).2.provider = s.provider := by
  unfold apply directed
  cases config.logFile with
  | none => exact ⟨rfl, ⟨h.subscribers, h.hashes⟩, rfl⟩
  | some path =>
      simp only [perform_bind, perform_get, Logger.openFile]
      cases s.files.openAppend path.untilZero with
      | error error => exact ⟨rfl, h, rfl⟩
      | ok opened => exact ⟨rfl, ⟨h.subscribers, h.hashes⟩, rfl⟩

end Config

/-! ## The signer -/

namespace Signer

/-- In a tended system a signer is made ready. -/
theorem perform_create {s : System} (h : s.Tended) (secret : Bytes) (source : NonceSource) :
    ((create secret source).perform s).1 = .ok { secret, nonceSource := source }
      ∧ ((create secret source).perform s).2.Tended
      ∧ ((create secret source).perform s).2.provider = s.provider := by
  obtain ⟨hok, hafter, hprovider⟩ := h.publish (readyEvent secret.length)
  unfold create
  rw [perform_bind_of_ok hok]
  split
  · obtain ⟨hok, hafter, hprovider'⟩ := hafter.publish emptySecretEvent
    rw [perform_bind_of_ok hok]
    exact ⟨rfl, hafter, hprovider'.trans hprovider⟩
  · exact ⟨rfl, hafter, hprovider⟩

end Signer

namespace Command

/-- The signer of an invocation, with a given secret. -/
def signerOf (i : Invocation) (secret : Bytes) : Signer := { secret, nonceSource := fun _ _ => .ok i.nonce }

/-- **Opening a signer comes to the configured secret**, or to the fault that stands in the way. -/
theorem perform_openSigner {s : System} (h : s.Tended) (hconsole : s.logger.sink = .console)
    (i : Invocation) :
    ((openSigner i).perform s).1 = (Config.secret? i.environment s.files).map (signerOf i)
      ∧ ((openSigner i).perform s).2.Tended
      ∧ ((openSigner i).perform s).2.provider = s.provider := by
  obtain ⟨hload, hloaded, hprovider, hfiles⟩ := Config.perform_load h hconsole i.environment
  unfold openSigner Config.secret?
  cases hconfig : Config.loaded i.environment s.files with
  | error f =>
      rw [perform_bind_of_error (hload.trans hconfig)]
      exact ⟨rfl, hloaded, hprovider⟩
  | ok config =>
      obtain ⟨hdirect, hdirected, hprovider'⟩ := Config.perform_apply hloaded config
      rw [hfiles] at hdirect
      rw [hprovider] at hprovider'
      rw [perform_bind_of_ok (hload.trans hconfig)]
      show _ = (config.directed s.files >>= fun _ => Except.ok config.secret).map _ ∧ _
      cases hlog : config.directed s.files with
      | error f =>
          rw [perform_bind_of_error (hdirect.trans hlog)]
          exact ⟨rfl, hdirected, hprovider'⟩
      | ok _ =>
          obtain ⟨hready, htended, hprovider''⟩ :=
            Signer.perform_create hdirected config.secret fun _ _ => .ok i.nonce
          rw [perform_bind_of_ok (hdirect.trans hlog)]
          exact ⟨hready, htended, hprovider''.trans hprovider'⟩

end Command

end SignedAudit
