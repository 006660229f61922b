import Mathlib.Data.List.Induction
import SignedAudit.Config
import SignedAudit.Proofs.FailClosed
import SignedAudit.Proofs.Journal
import SignedAudit.Proofs.Redaction

namespace SignedAudit

/-! # Where the lines of a log go

A log is directed to files and streams, its least severity is set, and events are logged, in any order, while the
provider and the time may change. Every line goes behind what its sink holds, and its sink is the one of the
latest redirection that succeeded, however many failed since; only the report of a lost event goes to the
console. A redirection that fails leaves everything as it was. -/

open Effect

namespace Logger

/-! ## What is done with a log -/

/-- What is done with the default logger, or happens around it. -/
inductive Call
  | openFile (path : Bytes)
  | useStream (stream : Option Bytes)
  | setMinimum (minimum : Severity)
  /-- The log is directed and its least severity set as a configuration says. -/
  | configure (config : Config)
  | log (e : Event)
  /-- The provider changes, and time passes. -/
  | meanwhile (provider : Provider) (now : Instant)

/-- What a call does. -/
def Call.act : Call → Effect Unit
  | .openFile path => do
    let logger ← (← get).logger.openFile path
    modify fun s => { s with logger }
  | .useStream stream => modify fun s => { s with logger := s.logger.useStream stream }
  | .setMinimum minimum => modify fun s => { s with logger := s.logger.withMinimum minimum }
  | .configure config => config.apply
  | .log e => do (← get).logger.log e
  | .meanwhile provider now => modify fun s => { s with provider, now }

/-- A call that was made: the system before it and after it, and what it came to. -/
structure Turn where
  call : Call
  before : System
  outcome : Except Failure Unit
  after : System

/-- A call is made. -/
def Call.turn (call : Call) (s : System) : Turn := ⟨call, s, (call.act.perform s).1, (call.act.perform s).2⟩

/-- Calls one after the other, each of which is made whatever has become of those before: all turns, and the
system in the end. -/
def run (s : System) (calls : List Call) : List Turn × System :=
  calls.foldl (fun (turns, t) call => (turns ++ [call.turn t], (call.turn t).after)) ([], s)

theorem run_concat (s : System) (calls : List Call) (call : Call) :
    run s (calls ++ [call])
      = ((run s calls).1 ++ [call.turn (run s calls).2], (call.turn (run s calls).2).after) := by
  rw [run, List.foldl_concat]
  rfl

/-! ## What is in force -/

/-- The sink at the end of a path, if a file can be opened there. -/
def sinkAt? (files : FileTree) (path : Bytes) : Option Sink :=
  match files.openAppend path.untilZero with
  | .ok (place, _) => some (.file place)
  | .error _ => none

/-- Where a call that does not fail directs the log, if it does. -/
def Call.redirection? (files : FileTree) : Call → Option Sink
  | .openFile path => sinkAt? files path
  | .useStream stream => some ((stream.map Sink.stream).getD .console)
  | .configure config => config.logFile.bind (sinkAt? files)
  | .setMinimum _ | .log _ | .meanwhile _ _ => none

/-- The least severity that a call that does not fail sets, if it does. -/
def Call.minimum? : Call → Option Severity
  | .setMinimum minimum => some minimum
  | .configure config => some config.minimum
  | .openFile _ | .useStream _ | .log _ | .meanwhile _ _ => none

/-- Where a turn has directed the log, if it has and did not fail. -/
def Turn.redirection? (turn : Turn) : Option Sink :=
  match turn.outcome with
  | .ok _ => turn.call.redirection? turn.before.files
  | .error _ => none

/-- The least severity that a turn has set, if it has and did not fail. -/
def Turn.minimum? (turn : Turn) : Option Severity :=
  match turn.outcome with
  | .ok _ => turn.call.minimum?
  | .error _ => none

/-- **The sink of the latest redirection**, and the console before the first one. -/
def sinkAfter (turns : List Turn) : Sink := (turns.filterMap Turn.redirection?).getLastD .console

/-- **The least severity that was set last**, and the one at first before that. -/
def minimumAfter (minimum : Severity) (turns : List Turn) : Severity :=
  (turns.filterMap Turn.minimum?).getLastD minimum

theorem sinkAfter_concat (turns : List Turn) (turn : Turn) :
    sinkAfter (turns ++ [turn]) = turn.redirection?.getD (sinkAfter turns) := by
  unfold sinkAfter
  cases h : turn.redirection? <;> simp [h]

theorem minimumAfter_concat (minimum : Severity) (turns : List Turn) (turn : Turn) :
    minimumAfter minimum (turns ++ [turn]) = turn.minimum?.getD (minimumAfter minimum turns) := by
  unfold minimumAfter
  cases h : turn.minimum? <;> simp [h]

/-! ## One turn -/

/-- The lines that a turn has written. -/
def Turn.lines (turn : Turn) : List Line :=
  match turn.call with
  | .log e => turn.before.logger.lines e turn.before
  | _ => []

/-- Directing the log to a file opens the file, or leaves everything as it is. -/
theorem perform_openFile (path : Bytes) (s : System) :
    (Call.act (.openFile path)).perform s =
      match s.files.openAppend path.untilZero with
      | .error error => (.error (Cause.logFileUnwritable path error).failure, s)
      | .ok (place, files) => (.ok (), { s with files, logger := { s.logger with sink := .file place } }) := by
  simp only [Call.act, Logger.openFile, perform_bind, perform_get]
  rcases s.files.openAppend path.untilZero with error | ⟨place, files⟩ <;> rfl

/-- A configuration is put into force as a whole, or leaves everything as it is. -/
theorem perform_configure (config : Config) (s : System) :
    (Call.act (.configure config)).perform s =
      match config.logFile with
      | none => (.ok (), { s with logger := s.logger.withMinimum config.minimum })
      | some path =>
        match s.files.openAppend path.untilZero with
        | .error error => (.error (Cause.logFileUnwritable path error).failure, s)
        | .ok (place, files) => (.ok (), { s with files, logger := ⟨.file place, config.minimum⟩ }) := by
  simp only [Call.act, Config.apply]
  cases config.logFile with
  | none => rfl
  | some path =>
      simp only [Logger.openFile, perform_bind, perform_get]
      rcases s.files.openAppend path.untilZero with error | ⟨place, files⟩ <;> rfl

/-- **What a turn does to the log**: the redirection and the least severity of the turn are in force then, and
what the turn does not set stays. The sink can be written to, as before. -/
theorem logger_turn {s : System} (h : s.IsOpen s.logger.sink) (call : Call) :
    (call.turn s).after.logger = ⟨(call.turn s).redirection?.getD s.logger.sink,
        (call.turn s).minimum?.getD s.logger.minimum⟩
      ∧ (call.turn s).after.IsOpen (call.turn s).after.logger.sink
      ∧ s.Gains (call.turn s).lines (call.turn s).after := by
  cases call with
  | openFile path =>
      simp only [Call.turn, Turn.redirection?, Turn.minimum?, perform_openFile]
      cases hopen : s.files.openAppend path.untilZero with
      | error error => exact ⟨rfl, h, s.gains_refl⟩
      | ok opened =>
          obtain ⟨hgains, hfile⟩ := System.gains_openAppend hopen
          refine ⟨?_, hfile, hgains.written, hgains.isOpen⟩
          simp [Call.redirection?, Call.minimum?, sinkAt?, hopen]
  | useStream stream =>
      refine ⟨rfl, ?_, System.gains_of_eq rfl rfl rfl⟩
      cases stream <;> trivial
  | setMinimum minimum => exact ⟨rfl, h, System.gains_of_eq rfl rfl rfl⟩
  | configure config =>
      simp only [Call.turn, Turn.redirection?, Turn.minimum?, perform_configure, Call.redirection?]
      cases config.logFile with
      | none => exact ⟨rfl, h, System.gains_of_eq rfl rfl rfl⟩
      | some path =>
          dsimp only
          cases hopen : s.files.openAppend path.untilZero with
          | error error => exact ⟨rfl, h, s.gains_refl⟩
          | ok opened =>
              obtain ⟨hgains, hfile⟩ := System.gains_openAppend hopen
              refine ⟨?_, hfile, hgains.written, hgains.isOpen⟩
              simp [Call.minimum?, sinkAt?, hopen]
  | log e =>
      have hgains := gains_log h e
      obtain ⟨hlogger, -⟩ := s.logger.keeps_log e s
      have hafter : (Call.turn (.log e) s).after.logger = s.logger := hlogger
      have hnothing : (Call.turn (.log e) s).redirection? = none ∧ (Call.turn (.log e) s).minimum? = none := by
        unfold Turn.redirection? Turn.minimum?
        cases (Call.turn (.log e) s).outcome <;> exact ⟨rfl, rfl⟩
      refine ⟨?_, ?_, hgains⟩
      · rw [hafter, hnothing.1, hnothing.2]
        rfl
      · rw [hafter]
        exact hgains.isOpen _ h
  | meanwhile provider now => exact ⟨rfl, h, System.gains_of_eq rfl rfl rfl⟩

/-! ## Every turn of a run -/

/-- **A turn is routed** behind earlier turns: the log stands as they have left it, and every sink gains what the
turn has written for it, behind what it held. That is one line at most, and none unless an event is logged that
is grave enough: the line that is kept of it, for the sink in force, or the report that it is lost, for the
console. An event that is not grave enough and a redirection that fails change nothing. -/
structure Turn.Routed (minimum : Severity) (earlier : List Turn) (turn : Turn) : Prop where
  logger : turn.before.logger = ⟨sinkAfter earlier, minimumAfter minimum earlier⟩
  gains : turn.before.Gains turn.lines turn.after
  atMostOne : turn.lines.length ≤ 1
  logged : ∀ line ∈ turn.lines, ∃ e, turn.call = .log e
    ∧ (minimumAfter minimum earlier).rank ≤ e.severity.rank
    ∧ ((∃ text, e.lineIn turn.before = .ok (some text)
        ∧ line = ⟨sinkAfter earlier, text ++ [Ascii.newline]⟩)
      ∨ ∃ f, e.lineIn turn.before = .error (.fault f) ∧ line = ⟨.console, lossReport (.fault f)⟩)
  kept : ∀ e text, turn.call = .log e → (minimumAfter minimum earlier).rank ≤ e.severity.rank →
    e.lineIn turn.before = .ok (some text) → turn.lines = [⟨sinkAfter earlier, text ++ [Ascii.newline]⟩]
  dropped : ∀ e, turn.call = .log e → e.severity.rank < (minimumAfter minimum earlier).rank →
    turn.after = turn.before
  failed : ∀ f, turn.outcome = .error f → (∀ e, turn.call ≠ .log e) → turn.after = turn.before

/-- A redirection that fails changes nothing at all. -/
theorem after_of_error {s : System} {call : Call} {f : Failure} (h : (call.act.perform s).1 = .error f)
    (hlog : ∀ e, call ≠ .log e) : (call.act.perform s).2 = s := by
  cases call with
  | openFile path =>
      rw [perform_openFile] at h ⊢
      cases hopen : s.files.openAppend path.untilZero with
      | error error => rfl
      | ok opened =>
          rw [hopen] at h
          cases h
  | useStream stream => cases h
  | setMinimum minimum => cases h
  | configure config =>
      rw [perform_configure] at h ⊢
      cases hfile : config.logFile with
      | none =>
          rw [hfile] at h
          cases h
      | some path =>
          rw [hfile] at h
          dsimp only at h ⊢
          cases hopen : s.files.openAppend path.untilZero with
          | error error => rfl
          | ok opened =>
              rw [hopen] at h
              cases h
  | log e => exact absurd rfl (hlog e)
  | meanwhile provider now => cases h

/-- **A call that is made behind earlier turns is routed.** -/
theorem routed_turn {s : System} {minimum : Severity} {earlier : List Turn}
    (hlogger : s.logger = ⟨sinkAfter earlier, minimumAfter minimum earlier⟩) (hopen : s.IsOpen s.logger.sink)
    (call : Call) : (call.turn s).Routed minimum earlier where
  logger := hlogger
  gains := (logger_turn hopen call).2.2
  atMostOne := by
    cases call with
    | log e => exact length_lines_le s.logger e s
    | _ => exact Nat.zero_le 1
  logged line hline := by
    cases call with
    | log e =>
        obtain ⟨hle, hwritten⟩ := mem_lines (show line ∈ s.logger.lines e s from hline)
        rw [hlogger] at hle hwritten
        exact ⟨e, rfl, hle, hwritten⟩
    | _ => cases hline
  kept e text hcall hle htext := by
    obtain rfl : call = .log e := hcall
    rw [show minimumAfter minimum earlier = s.logger.minimum by rw [hlogger]] at hle
    rw [show sinkAfter earlier = s.logger.sink by rw [hlogger]]
    have hkept : e.lineIn s = .ok (some text) := htext
    show s.logger.lines e s = _
    exact lines_of_kept hle hkept
  dropped e hcall hlt := by
    obtain rfl : call = .log e := hcall
    rw [show minimumAfter minimum earlier = s.logger.minimum by rw [hlogger]] at hlt
    show ((s.logger.log e).perform s).2 = s
    rw [perform_log_of_lt hlt]
  failed f hfailed hlog := after_of_error hfailed hlog

/-- **The lines of a log go where it was directed last**: whatever calls are made on a log that writes to the
console at first, and whichever of them fail. The log ends up with the sink and the least severity that were set
last, each sink gains the lines that the turns have written for it, in their order, and every turn is routed. -/
theorem lines_go_where_directed {s : System} (hconsole : s.logger.sink = .console) (calls : List Call) :
    (run s calls).1.map Turn.call = calls
      ∧ (run s calls).2.logger
        = ⟨sinkAfter (run s calls).1, minimumAfter s.logger.minimum (run s calls).1⟩
      ∧ s.Gains ((run s calls).1.flatMap Turn.lines) (run s calls).2
      ∧ ∀ earlier turn, earlier ++ [turn] <+: (run s calls).1 → turn.Routed s.logger.minimum earlier := by
  -- that the sink can be written to is what carries the induction
  suffices h : (run s calls).2.IsOpen (run s calls).2.logger.sink ∧ _ from h.2
  induction calls using List.reverseRecOn with
  | nil =>
      refine ⟨?_, rfl, ?_, s.gains_refl, ?_⟩
      · show s.IsOpen s.logger.sink
        rw [hconsole]
        trivial
      · show s.logger = ⟨.console, s.logger.minimum⟩
        rw [← hconsole]
      · intro earlier turn hprefix
        exact absurd (List.prefix_nil.mp hprefix) (by simp)
  | append_singleton calls call ih =>
      obtain ⟨hopen, hcalls, hlogger, hgains, hrouted⟩ := ih
      obtain ⟨hafter, hopenAfter, hgainsAfter⟩ := logger_turn hopen call
      rw [run_concat]
      refine ⟨hopenAfter, ?_, ?_, ?_, ?_⟩
      · rw [List.map_append, hcalls]
        rfl
      · rw [hafter, sinkAfter_concat, minimumAfter_concat, hlogger]
      · rw [List.flatMap_append, List.flatMap_singleton]
        exact hgains.trans hgainsAfter
      · intro earlier turn hprefix
        rcases List.prefix_concat_iff.mp hprefix with hlast | hearlier
        · obtain ⟨rfl, hturn⟩ := List.append_inj' hlast rfl
          obtain rfl : turn = call.turn (run s calls).2 := List.singleton_inj.mp hturn
          exact routed_turn hlogger hopen call
        · exact hrouted earlier turn hearlier

/-- An event without fields. -/
def startEvent : Event where
  severity := .warning
  id := Bytes.ascii "start"

/-- A redirection that succeeds, one that fails, and one that is overruled in part. -/
def redirections : List Call :=
  [.openFile (Bytes.ascii "/log"), .openFile (Bytes.ascii "/log/"), .setMinimum .error,
    .configure { secret := [], logFile := none, minimum := .info }, .log startEvent]

/-- The event goes to the file that could be opened, and nothing to the console. -/
theorem lines_go_where_directed_past_failure :
    (run {} redirections).2.logger = ⟨.file [Bytes.ascii "log"], .info⟩
      ∧ (run {} redirections).2.console = []
      ∧ (run {} redirections).2.written (.file [Bytes.ascii "log"])
        = startEvent.rendering Sha256.hash Instant.epoch.logText ++ [Ascii.newline] := by
  obtain ⟨-, hlogger, hgains, -⟩ := lines_go_where_directed (s := {}) rfl redirections
  refine ⟨hlogger.trans (by decide +kernel), (hgains.written .console).trans (by decide +kernel), ?_⟩
  exact (hgains.written _).trans (by decide +kernel)

/-- **Not every line goes there**: the report that an event is lost goes to the console, wherever the log was
directed. -/
theorem loss_report_ignores_direction :
    ¬ ∀ (s : System) (calls : List Call), s.logger.sink = .console →
      ∀ earlier turn, earlier ++ [turn] <+: (run s calls).1 →
        ∀ line ∈ turn.lines, line.sink = sinkAfter earlier := by
  intro h
  have hlost := h (Signer.failingSystem Signer.providerFault)
    [.openFile (Bytes.ascii "/log"), .log (loginEvent "hunter2" "alice" .hashed)] rfl [_] _ List.prefix_rfl
    ⟨.console, lossReport Signer.providerFault⟩ (by decide +kernel)
  exact absurd hlost (by decide +kernel)

end Logger

end SignedAudit
