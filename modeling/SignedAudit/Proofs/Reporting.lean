import SignedAudit.Bus
import SignedAudit.Proofs.EventLine

namespace SignedAudit

/-! # What a report can come to

A logger fails in one way only: the digest of a hashed value is refused with a failure that is no fault. A
system is calm when neither its provider nor its subscribers can fail a publication; then every
publication is delivered to the end, and the system stays calm. Where the log is the only subscriber, a
publication does what the log does. -/

open Consultation Effect

/-! ## Writing leaves the rest alone -/

namespace System

@[simp] theorem provider_write (s : System) (sink : Sink) (text : Bytes) :
    (s.write sink text).provider = s.provider := by
  cases sink <;> rfl

@[simp] theorem subscribers_write (s : System) (sink : Sink) (text : Bytes) :
    (s.write sink text).subscribers = s.subscribers := by
  cases sink <;> rfl

@[simp] theorem delivered_write (s : System) (sink : Sink) (text : Bytes) :
    (s.write sink text).delivered = s.delivered := by
  cases sink <;> rfl

@[simp] theorem logger_write (s : System) (sink : Sink) (text : Bytes) :
    (s.write sink text).logger = s.logger := by
  cases sink <;> rfl

@[simp] theorem publishing_write (s : System) (sink : Sink) (text : Bytes) :
    (s.write sink text).publishing = s.publishing := by
  cases sink <;> rfl

@[simp] theorem now_write (s : System) (sink : Sink) (text : Bytes) : (s.write sink text).now = s.now := by
  cases sink <;> rfl

end System

/-! ## Logging -/

namespace Logger

/-- An event below the least severity is dropped, and nothing else happens. -/
theorem perform_log_of_lt {logger : Logger} {e : Event} (h : e.severity.rank < logger.minimum.rank)
    (s : System) : (logger.log e).perform s = (.ok (), s) := by
  rw [log, if_pos h]
  rfl

/-- Any other event is written, reported as lost, or fails the logger. -/
theorem perform_log_of_le {logger : Logger} {e : Event} (h : logger.minimum.rank ≤ e.severity.rank)
    (s : System) :
    (logger.log e).perform s =
      match answer (e.logLine? s.provider s.now.logText) s.calls with
      | (.ok (some line), calls) =>
        (.ok (), { s with calls }.write logger.sink (line ++ [Ascii.newline]))
      | (.ok none, calls) => (.ok (), { s with calls })
      | (.error (.fault f), calls) => (.ok (), { s with calls }.write .console (lossReport (.fault f)))
      | (.error (.other message), calls) => (.error (.other message), { s with calls }) := by
  have hasked : ((e.logLine? s.provider s.now.logText) s.calls)
      = answer (e.logLine? s.provider s.now.logText) s.calls := rfl
  rw [log, if_neg (Nat.not_lt.mpr h)]
  simp only [perform_bind, perform_get, perform_attempt, perform_consult, hasked]
  rcases answer (e.logLine? s.provider s.now.logText) s.calls with ⟨(f | message) | _ | line, calls⟩ <;>
    rfl

/-- **When a logger fails**: the event is grave enough, and its line fails with a failure that is no
fault. -/
theorem perform_log_error_iff (logger : Logger) (e : Event) (s : System) (f : Failure) :
    ((logger.log e).perform s).1 = .error f
      ↔ logger.minimum.rank ≤ e.severity.rank ∧ ∃ message, f = .other message
        ∧ (answer (e.line s.provider s.now.logText Event.lineLimit) s.calls).1
          = .error (.other message) := by
  by_cases h : logger.minimum.rank ≤ e.severity.rank
  · rw [perform_log_of_le h]
    simp only [h, true_and, ← Event.answer_logLine_error_iff]
    rcases answer (e.logLine? s.provider s.now.logText) s.calls with
      ⟨(fault | message) | _ | line, calls⟩ <;> simp [eq_comm]
  · rw [perform_log_of_lt (Nat.not_le.mp h)]
    simp only [h, false_and, reduceCtorEq]

/-- **All that a logger leaves behind** is a text in its sink or on the console, which may be empty, and what
the provider counts. -/
theorem exists_write_of_log (logger : Logger) (e : Event) (s : System) :
    ∃ calls text, ∃ sink ∈ [logger.sink, .console],
      ((logger.log e).perform s).2 = { s with calls }.write sink text := by
  have hnothing : ∀ calls : Nat, { s with calls } = { s with calls }.write .console [] := by
    intro calls
    simp only [System.write, List.append_nil]
  by_cases h : logger.minimum.rank ≤ e.severity.rank
  · rw [perform_log_of_le h]
    rcases answer (e.logLine? s.provider s.now.logText) s.calls with
      ⟨(fault | message) | _ | line, calls⟩
    · exact ⟨calls, _, .console, by simp, rfl⟩
    · exact ⟨calls, [], .console, by simp, hnothing calls⟩
    · exact ⟨calls, [], .console, by simp, hnothing calls⟩
    · exact ⟨calls, _, logger.sink, by simp, rfl⟩
  · rw [perform_log_of_lt (Nat.not_le.mp h)]
    exact ⟨s.calls, [], .console, by simp, hnothing s.calls⟩

/-- A logger changes neither the provider, nor the subscribers, nor what listeners have noted. -/
theorem frame_log (logger : Logger) (e : Event) (s : System) :
    ((logger.log e).perform s).2.provider = s.provider
      ∧ ((logger.log e).perform s).2.subscribers = s.subscribers
      ∧ ((logger.log e).perform s).2.delivered = s.delivered := by
  obtain ⟨calls, text, sink, -, hwrite⟩ := logger.exists_write_of_log e s
  rw [hwrite]
  simp only [System.provider_write, System.subscribers_write, System.delivered_write, and_self]

/-- Logging does not change the default logger, and on the console it does not touch a file. -/
theorem keeps_log (logger : Logger) (e : Event) (s : System) :
    ((logger.log e).perform s).2.logger = s.logger
      ∧ (logger.sink = .console → ((logger.log e).perform s).2.files = s.files) := by
  obtain ⟨calls, text, sink, hsink, hwrite⟩ := logger.exists_write_of_log e s
  rw [hwrite]
  refine ⟨System.logger_write _ _ _, ?_⟩
  intro hconsole
  simp only [hconsole, List.mem_cons, List.not_mem_nil, or_false, or_self] at hsink
  rw [hsink]
  rfl

/-- Logging neither begins nor ends a publication. -/
theorem publishing_log (logger : Logger) (e : Event) (s : System) :
    ((logger.log e).perform s).2.publishing = s.publishing := by
  obtain ⟨calls, text, sink, -, hwrite⟩ := logger.exists_write_of_log e s
  rw [hwrite, System.publishing_write]

/-- Logging takes no time. -/
theorem now_log (logger : Logger) (e : Event) (s : System) : ((logger.log e).perform s).2.now = s.now := by
  obtain ⟨calls, text, sink, -, hwrite⟩ := logger.exists_write_of_log e s
  rw [hwrite, System.now_write]

end Logger

/-! ## Calm systems -/

/-- Can a subscriber not fail, nor bring in one that can? -/
def Subscriber.isTame : Subscriber → Bool
  | .failing _ _ => false
  | .recruiter _ newcomer => newcomer.isTame
  | .logger | .idle | .recorder _ | .republisher _ _ => true

/-- **Calm**: no subscriber fails of its own, and the plain digest fails with faults at most, which a
logger reports instead of passing them on. -/
structure System.Calm (s : System) : Prop where
  tame : ∀ x ∈ s.subscribers, x.isTame = true
  hashes : ∀ call data message, s.provider.sha256 call data ≠ .error (.other message)

namespace Bus

/-- In a calm system the logger does not fail. -/
theorem perform_log_of_calm {s : System} (h : s.Calm) (logger : Logger) (e : Event) :
    ((logger.log e).perform s).1 = .ok () ∧ ((logger.log e).perform s).2.Calm := by
  obtain ⟨hprovider, hsubscribers, -⟩ := logger.frame_log e s
  refine ⟨?_, ⟨by rw [hsubscribers]; exact h.tame, by rw [hprovider]; exact h.hashes⟩⟩
  cases houtcome : ((logger.log e).perform s).1 with
  | ok _ => rfl
  | error f =>
      -- a failure of the log goes back to one of the plain digest, and there is none of that kind
      obtain ⟨-, message, rfl, hline⟩ := (Logger.perform_log_error_iff logger e s f).mp houtcome
      obtain ⟨call, data, hdigest⟩ := Event.exists_of_answer_assemble_error hline
      exact absurd hdigest (h.hashes call data message)

/-- In a calm system a tame subscriber takes the event, and the system stays calm. -/
theorem perform_notify_of_calm {s : System} (h : s.Calm) {x : Subscriber} (hx : x.isTame = true)
    (e : Event) :
    ((notify (publishAt 0) e x).perform s).1 = .ok ()
      ∧ ((notify (publishAt 0) e x).perform s).2.Calm := by
  cases x with
  | logger => exact perform_log_of_calm h s.logger e
  | idle => exact ⟨rfl, h⟩
  | recorder name => exact ⟨rfl, h.tame, h.hashes⟩
  | republisher name eventId => exact ⟨rfl, h.tame, h.hashes⟩
  | failing name failure => cases hx
  | recruiter name newcomer =>
      refine ⟨rfl, ?_, h.hashes⟩
      intro y hy
      rcases List.mem_append.mp hy with hy | hy
      · exact h.tame y hy
      · rw [List.mem_singleton.mp hy]
        exact hx

/-- Tame subscribers take the event one after the other. -/
theorem perform_forM_of_calm (e : Event) {subscribers : List Subscriber} {s : System} (h : s.Calm)
    (htame : ∀ x ∈ subscribers, x.isTame = true) :
    ((subscribers.forM (notify (publishAt 0) e)).perform s).1 = .ok ()
      ∧ ((subscribers.forM (notify (publishAt 0) e)).perform s).2.Calm := by
  induction subscribers generalizing s with
  | nil => exact ⟨rfl, h⟩
  | cons x rest ih =>
      -- the first leaves a calm system behind, which is all that the others ask for
      obtain ⟨hok, hcalm⟩ := perform_notify_of_calm h (htame x List.mem_cons_self) e
      have hrest := ih hcalm fun y hy => htame y (List.mem_cons_of_mem x hy)
      rw [List.forM, perform_bind_of_ok hok]
      exact hrest

/-- A publication that is not inside another one. -/
theorem perform_publish {s : System} (hs : s.publishing = false) (e : Event) :
    (publish e).perform s =
      ((((s.subscribers.forM (notify (publishAt 0) e)).perform { s with publishing := true }).1,
        { ((s.subscribers.forM (notify (publishAt 0) e)).perform { s with publishing := true }).2 with
          publishing := false })) := by
  unfold publish publishAt
  simp only [perform_bind, perform_get, hs, Bool.false_eq_true, if_false, perform_set, perform_attempt,
    perform_modify, perform_ofExcept]

/-- Inside a publication no publication is delivered, however deep it is. -/
theorem perform_publishAt_of_publishing {s : System} (hs : s.publishing = true) (depth : Nat) (e : Event) :
    (publishAt depth e).perform s = (.ok (), s.write .console reentrancyNote) := by
  cases depth with
  | zero => rfl
  | succ depth =>
      unfold publishAt
      simp only [perform_bind, perform_get, hs, if_true, perform_write]

/-- A publication inside another one is a note on the console. -/
theorem perform_publish_of_publishing {s : System} (hs : s.publishing = true) (e : Event) :
    (publish e).perform s = (.ok (), s.write .console reentrancyNote) :=
  perform_publishAt_of_publishing hs 1 e

/-- **In a calm system every publication is delivered to the end**, and the system stays calm. -/
theorem perform_publish_of_calm {s : System} (h : s.Calm) (e : Event) :
    ((publish e).perform s).1 = .ok () ∧ ((publish e).perform s).2.Calm := by
  cases hs : s.publishing with
  | true =>
      rw [perform_publish_of_publishing hs]
      exact ⟨rfl, h.tame, h.hashes⟩
  | false =>
      rw [perform_publish hs]
      have hquiet : System.Calm { s with publishing := true } := ⟨h.tame, h.hashes⟩
      obtain ⟨hok, hcalm⟩ := perform_forM_of_calm e hquiet h.tame
      exact ⟨hok, hcalm.tame, hcalm.hashes⟩

end Bus

/-! ## Events without digests -/

/-- The failure of a subscriber that fails with every event. -/
def Subscriber.failure? : Subscriber → Option Failure
  | .failing _ f => some f
  | .logger | .idle | .recorder _ | .republisher _ _ | .recruiter _ _ => none

/-- **Plain**: no field is hashed, so that the provider has no part in what becomes of the event. -/
def Event.IsPlain (e : Event) : Prop := ∀ field ∈ e.fields, field.privacy ≠ .hashed

/-- The failure with which a plain event is met: that of the first subscriber that fails. Inside a publication no
subscriber is asked. -/
def System.objection? (s : System) : Option Failure :=
  if s.publishing then none else s.subscribers.findSome? (·.failure?)

theorem System.objection?_eq_none {s : System} (h : ∀ x ∈ s.subscribers, x.failure? = none) :
    s.objection? = none := by
  unfold objection?
  split
  · rfl
  · exact List.findSome?_eq_none_iff.mpr h

/-- A plain event does not fail a logger. -/
theorem Logger.perform_log_of_isPlain {e : Event} (h : e.IsPlain) (logger : Logger) (s : System) :
    ((logger.log e).perform s).1 = .ok () := by
  cases houtcome : ((logger.log e).perform s).1 with
  | ok _ => rfl
  | error f =>
      obtain ⟨-, message, -, hline⟩ := (logger.perform_log_error_iff e s f).mp houtcome
      have hplain := Event.isPlain_of_mem_members h s.now.logText
      obtain ⟨text, htext⟩ :=
        Event.answer_assemble_of_isPlain (p := s.provider) hplain Event.lineLimit Ascii.openBrace s.calls
      rw [Event.line, htext] at hline
      cases hline

namespace Bus

variable {e : Event} (h : e.IsPlain)

include h

/-- A subscriber meets a plain event with its own failure, if it has one. -/
theorem perform_notify_of_isPlain (x : Subscriber) (s : System) :
    ((notify (publishAt 0) e x).perform s).1 = x.failure?.elim (.ok ()) .error := by
  cases x with
  | logger => exact Logger.perform_log_of_isPlain h s.logger s
  | idle => rfl
  | recorder name => rfl
  | republisher name eventId => rfl
  | failing name failure => rfl
  | recruiter name newcomer => rfl

/-- The first failure among subscribers ends their turns. -/
theorem perform_forM_of_isPlain (subscribers : List Subscriber) (s : System) :
    ((subscribers.forM (notify (publishAt 0) e)).perform s).1
      = (subscribers.findSome? (·.failure?)).elim (.ok ()) .error := by
  induction subscribers generalizing s with
  | nil => rfl
  | cons x rest ih =>
      have hturn := perform_notify_of_isPlain h x s
      rw [List.forM, List.findSome?_cons]
      cases hfailure : x.failure? with
      | none =>
          rw [hfailure] at hturn
          rw [perform_bind_of_ok hturn]
          exact ih _
      | some f =>
          rw [hfailure] at hturn
          rw [perform_bind_of_error hturn]
          rfl

/-- **A plain event is published unless a subscriber fails**, whatever the provider does. -/
theorem perform_publish_of_isPlain (s : System) :
    ((publish e).perform s).1 = s.objection?.elim (.ok ()) .error := by
  unfold System.objection?
  cases hs : s.publishing with
  | true =>
      rw [perform_publish_of_publishing hs]
      rfl
  | false =>
      rw [perform_publish hs]
      exact perform_forM_of_isPlain h s.subscribers _

end Bus

/-! ## A bus with nothing but the log -/

namespace Bus

theorem perform_forM_singleton (f : Subscriber → Effect Unit) (x : Subscriber) (s : System) :
    ([x].forM f).perform s = (f x).perform s := by
  rw [List.forM, perform_bind]
  rcases (f x).perform s with ⟨_ | _, t⟩ <;> rfl

/-- The log, where it is the only subscriber, takes the event. -/
theorem perform_publish_of_logger {s : System} (hlogger : s.subscribers = [.logger])
    (hidle : s.publishing = false) (e : Event) :
    (publish e).perform s =
      (((s.logger.log e).perform { s with publishing := true }).1,
        { ((s.logger.log e).perform { s with publishing := true }).2 with publishing := false }) := by
  have hforM : s.subscribers.forM (notify (publishAt 0) e) = [.logger].forM (notify (publishAt 0) e) := by
    rw [hlogger]
  rw [perform_publish hidle, hforM, perform_forM_singleton]
  rfl

/-- A publication to the log changes neither the provider, nor the subscribers, nor the default logger, and
where the log is the console, no file. -/
theorem frame_publish_of_logger {s : System} (hlogger : s.subscribers = [.logger]) (e : Event) :
    ((publish e).perform s).2.provider = s.provider
      ∧ ((publish e).perform s).2.subscribers = s.subscribers
      ∧ ((publish e).perform s).2.logger = s.logger
      ∧ (s.logger.sink = .console → ((publish e).perform s).2.files = s.files) := by
  cases hidle : s.publishing with
  | true =>
      rw [perform_publish_of_publishing hidle]
      exact ⟨rfl, rfl, rfl, fun _ => rfl⟩
  | false =>
      rw [perform_publish_of_logger hlogger hidle]
      obtain ⟨hprovider, hsubscribers, -⟩ := s.logger.frame_log e { s with publishing := true }
      obtain ⟨hdefault, hfiles⟩ := s.logger.keeps_log e { s with publishing := true }
      exact ⟨hprovider, hsubscribers, hdefault, hfiles⟩

/-- A recorder in front of the log hears the event once, whatever becomes of the event in the log. -/
theorem delivered_publish_of_recorder {s : System} {name : Bytes}
    (hsubscribers : s.subscribers = [.recorder name, .logger]) (hidle : s.publishing = false) (e : Event) :
    ((publish e).perform s).2.delivered = s.delivered ++ [(name, e)] := by
  have hforM : s.subscribers.forM (notify (publishAt 0) e)
      = (do note name e; [.logger].forM (notify (publishAt 0) e)) := by
    rw [hsubscribers]
    rfl
  obtain ⟨-, -, hdelivered⟩ := s.logger.frame_log e
    { s with publishing := true, delivered := s.delivered ++ [(name, e)] }
  rw [perform_publish hidle, hforM, perform_bind]
  show ((([Subscriber.logger].forM (notify (publishAt 0) e)).perform
    { s with publishing := true, delivered := s.delivered ++ [(name, e)] }).2).delivered = _
  rw [perform_forM_singleton]
  exact hdelivered

/-- **When a publication fails whose only subscriber is the log.** -/
theorem perform_publish_error_iff_of_logger {s : System} (hlogger : s.subscribers = [.logger]) (e : Event)
    (f : Failure) :
    ((publish e).perform s).1 = .error f
      ↔ s.publishing = false ∧ s.logger.minimum.rank ≤ e.severity.rank ∧ ∃ message, f = .other message
        ∧ (answer (e.line s.provider s.now.logText Event.lineLimit) s.calls).1
          = .error (.other message) := by
  cases hidle : s.publishing with
  | true =>
      rw [perform_publish_of_publishing hidle]
      simp only [reduceCtorEq, false_and]
  | false =>
      rw [perform_publish_of_logger hlogger hidle]
      simp only [true_and]
      exact Logger.perform_log_error_iff s.logger e { s with publishing := true } f

end Bus

end SignedAudit
