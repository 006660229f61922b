import Mathlib.Data.List.Basic
import SignedAudit.Proofs.Reporting

namespace SignedAudit

/-! # Deliveries

What the bus does with an event is described here without the bus: the subscribers that are there have their
turns one behind the other, until one fails, and while they have them the bus is busy. Whatever subscribers do
in their turns, bring in others, publish in their turn or fail, the bus is idle afterwards, and so it delivers
the next event again. -/

open Effect

/-! ## Turns -/

namespace Subscriber

/-- What a subscriber takes note of in its turn: the event, under its name. -/
def heard (e : Event) : Subscriber → Option (Bytes × Event)
  | .logger | .idle => none
  | .recorder name | .republisher name _ | .failing name _ | .recruiter name _ => some (name, e)

/-- Whom a subscriber brings in. -/
def newcomer? : Subscriber → Option Subscriber
  | .recruiter _ newcomer => some newcomer
  | .logger | .idle | .recorder _ | .republisher _ _ | .failing _ _ => none

end Subscriber

namespace Bus

/-- A listener that publishes in its turn takes note of the event, and its own publication comes to a note on the
console, however deep it is. -/
theorem perform_notify_republisher {s : System} (hs : s.publishing = true) (depth : Nat) (e : Event)
    (name eventId : Bytes) :
    (notify (publishAt depth) e (.republisher name eventId)).perform s
      = (.ok (), { s with delivered := s.delivered ++ [(name, e)] }.write .console reentrancyNote) := by
  have hnoted : ({ s with delivered := s.delivered ++ [(name, e)] } : System).publishing = true := hs
  exact perform_publishAt_of_publishing hnoted depth { e with id := eventId }

/-- While the bus is busy, a turn does not depend on how deep a subscriber may publish. -/
theorem perform_notify_publishAt {s : System} (hs : s.publishing = true) (depth : Nat) (e : Event)
    (x : Subscriber) :
    (notify (publishAt depth) e x).perform s = (notify publish e x).perform s := by
  cases x with
  | republisher name eventId =>
      show _ = (notify (publishAt 1) e (.republisher name eventId)).perform s
      rw [perform_notify_republisher hs, perform_notify_republisher hs]
  | logger => rfl
  | idle => rfl
  | recorder name => rfl
  | failing name failure => rfl
  | recruiter name newcomer => rfl

/-- **What a turn leaves behind** while the bus is busy: it is busy still, the event is noted once or not at
all, and there is a newcomer at the end or none. -/
theorem frame_notify {s : System} (hs : s.publishing = true) (e : Event) (x : Subscriber) :
    ((notify publish e x).perform s).2.publishing = true
      ∧ ((notify publish e x).perform s).2.delivered = s.delivered ++ (x.heard e).toList
      ∧ ((notify publish e x).perform s).2.subscribers = s.subscribers ++ x.newcomer?.toList := by
  cases x with
  | logger =>
      obtain ⟨-, hsubscribers, hdelivered⟩ := s.logger.frame_log e s
      have hpublishing := s.logger.publishing_log e s
      show ((s.logger.log e).perform s).2.publishing = true
        ∧ ((s.logger.log e).perform s).2.delivered = s.delivered ++ []
        ∧ ((s.logger.log e).perform s).2.subscribers = s.subscribers ++ []
      rw [hpublishing, hdelivered, hsubscribers, List.append_nil, List.append_nil]
      exact ⟨hs, rfl, rfl⟩
  | idle => exact ⟨hs, (List.append_nil _).symm, (List.append_nil _).symm⟩
  | recorder name => exact ⟨hs, rfl, (List.append_nil _).symm⟩
  | republisher name eventId =>
      rw [← perform_notify_publishAt hs 0, perform_notify_republisher hs]
      exact ⟨hs, rfl, (List.append_nil _).symm⟩
  | failing name failure => exact ⟨hs, rfl, (List.append_nil _).symm⟩
  | recruiter name newcomer => exact ⟨hs, rfl, rfl⟩

/-! ## One after the other -/

/-- **Subscribers have their turns**, each in the system that the one before has left. `Delivery e waiting s
called outcome t` says that with `waiting` in line, those of `called` had turns, the last of them
at most with a failure. An idle subscriber has none, and each turn is had while the bus is busy. -/
inductive Delivery (e : Event) :
    (waiting : List Subscriber) → System → (called : List Subscriber) → Except Failure Unit → System → Prop
  | done (s : System) : Delivery e [] s [] (.ok ()) s
  | idle {rest : List Subscriber} {s : System} {called : List Subscriber} {outcome : Except Failure Unit}
      {t : System} (h : Delivery e rest s called outcome t) : Delivery e (.idle :: rest) s called outcome t
  | turn {x : Subscriber} {rest : List Subscriber} {s u : System} {called : List Subscriber}
      {outcome : Except Failure Unit} {t : System} (hx : x ≠ .idle) (hbusy : s.publishing = true)
      (hturn : (notify publish e x).perform s = (.ok (), u)) (h : Delivery e rest u called outcome t) :
      Delivery e (x :: rest) s (x :: called) outcome t
  | failure {x : Subscriber} (rest : List Subscriber) {s : System} {f : Failure} {t : System} (hx : x ≠ .idle)
      (hbusy : s.publishing = true) (hturn : (notify publish e x).perform s = (.error f, t)) :
      Delivery e (x :: rest) s [x] (.error f) t

/-- **A busy bus gives every subscriber its turn**, up to the first that fails. -/
theorem exists_delivery (e : Event) (waiting : List Subscriber) {s : System} (hs : s.publishing = true) :
    ∃ called, Delivery e waiting s called ((waiting.forM (notify (publishAt 0) e)).perform s).1
      ((waiting.forM (notify (publishAt 0) e)).perform s).2 := by
  induction waiting generalizing s with
  | nil => exact ⟨[], .done s⟩
  | cons x rest ih =>
      obtain ⟨hbusy, -, -⟩ := frame_notify hs e x
      have hturn := perform_notify_publishAt hs 0 e x
      by_cases hx : x = .idle
      · subst hx
        obtain ⟨called, h⟩ := ih hs
        exact ⟨called, .idle h⟩
      · cases houtcome : ((notify publish e x).perform s).1 with
        | ok _ =>
            obtain ⟨called, h⟩ := ih hbusy
            rw [List.forM, perform_bind_of_ok (by rw [hturn]; exact houtcome), hturn]
            exact ⟨x :: called, .turn hx hs (Prod.ext houtcome rfl) h⟩
        | error f =>
            rw [List.forM, perform_bind_of_error (by rw [hturn]; exact houtcome), hturn]
            exact ⟨[x], .failure rest hx hs (Prod.ext houtcome rfl)⟩

namespace Delivery

variable {e : Event} {waiting called : List Subscriber} {s t : System} {outcome : Except Failure Unit}

/-- The order is that of the line, and nobody has a second turn. -/
theorem called_prefix (h : Delivery e waiting s called outcome t) :
    called <+: waiting.filter (· ≠ .idle) := by
  induction h with
  | done s => exact List.prefix_refl _
  | idle h ih => simpa using ih
  | @turn x rest s u called outcome t hx hbusy hturn h ih =>
      rw [List.filter_cons_of_pos (by simpa using hx)]
      exact (List.prefix_cons_inj x).mpr ih
  | @failure x rest s f t hx hbusy hturn =>
      rw [List.filter_cons_of_pos (by simpa using hx)]
      exact (List.prefix_cons_inj x).mpr List.nil_prefix

/-- If all goes well, everyone had a turn. -/
theorem called_eq_of_ok (h : Delivery e waiting s called (.ok ()) t) :
    called = waiting.filter (· ≠ .idle) := by
  generalize hok : (.ok () : Except Failure Unit) = outcome at h
  induction h with
  | done s => rfl
  | idle h ih => simpa using ih hok
  | @turn x rest s u called outcome t hx hbusy hturn h ih =>
      rw [List.filter_cons_of_pos (by simpa using hx), ← ih hok]
  | failure rest hx hbusy hturn => cases hok

/-- **A failure is the one of the last turn**, as it was. -/
theorem exists_last_of_error {f : Failure} (h : Delivery e waiting s called (.error f) t) :
    ∃ front x u, called = front ++ [x] ∧ (notify publish e x).perform u = (.error f, t) := by
  generalize herror : (.error f : Except Failure Unit) = outcome at h
  induction h with
  | done s => cases herror
  | idle h ih => exact ih herror
  | @turn x rest s u called outcome t hx hbusy hturn h ih =>
      obtain ⟨front, y, v, rfl, hlast⟩ := ih herror
      exact ⟨x :: front, y, v, rfl, hlast⟩
  | @failure x rest s g t hx hbusy hturn =>
      cases herror
      exact ⟨[], x, s, rfl, hturn⟩

/-- **What all turns leave behind**: each event is noted in the order of the turns, and newcomers stand at the
end in that order. -/
theorem frame (h : Delivery e waiting s called outcome t) (hs : s.publishing = true) :
    t.publishing = true ∧ t.delivered = s.delivered ++ called.filterMap (·.heard e)
      ∧ t.subscribers = s.subscribers ++ called.filterMap (·.newcomer?) := by
  simp only [List.filterMap_eq_flatMap_toList]
  induction h with
  | done s => simp [hs]
  | idle h ih => exact ih hs
  | @turn x rest s u called outcome t hx hbusy hturn h ih =>
      obtain ⟨hpublishing, hdelivered, hsubscribers⟩ := frame_notify hbusy e x
      rw [hturn] at hpublishing hdelivered hsubscribers
      obtain ⟨hfinal, hheard, hjoined⟩ := ih hpublishing
      refine ⟨hfinal, ?_, ?_⟩
      · rw [hheard, hdelivered, List.flatMap_cons, List.append_assoc]
      · rw [hjoined, hsubscribers, List.flatMap_cons, List.append_assoc]
  | @failure x rest s f t hx hbusy hturn =>
      obtain ⟨hpublishing, hdelivered, hsubscribers⟩ := frame_notify hbusy e x
      rw [hturn] at hpublishing hdelivered hsubscribers
      rw [List.flatMap_singleton, List.flatMap_singleton]
      exact ⟨hpublishing, hdelivered, hsubscribers⟩

end Delivery

/-! ## Publications and runs -/

/-- **What a publication comes to** on a bus that is idle: a delivery to the subscribers that are there when it
begins. -/
structure Publication (e : Event) (s : System) (called : List Subscriber) (outcome : Except Failure Unit)
    (after : System) : Prop where
  /-- The event is published, with this outcome. -/
  published : (publish e).perform s = (outcome, after)
  /-- Subscribers have their turns in a busy system, and the outcome is theirs. -/
  turns : ∃ busy, Delivery e s.subscribers { s with publishing := true } called outcome busy
    ∧ after = { busy with publishing := false }
  /-- They are the subscribers in their order, those at least that come first. -/
  inOrder : called <+: s.subscribers.filter (· ≠ .idle)
  /-- If nothing fails, they are all subscribers. -/
  complete : outcome = .ok () → called = s.subscribers.filter (· ≠ .idle)
  /-- If something fails, it is the last turn. -/
  fails : ∀ f, outcome = .error f → ∃ front x before busy, called = front ++ [x]
    ∧ (notify publish e x).perform before = (.error f, busy)
  /-- Only this event is heard, once in each turn of a listener. -/
  heard : after.delivered = s.delivered ++ called.filterMap (·.heard e)
  /-- Newcomers stand behind all others. -/
  joined : after.subscribers = s.subscribers ++ called.filterMap (·.newcomer?)
  /-- The bus is idle again. -/
  idle : after.publishing = false

/-- **Every publication on an idle bus is delivered**, and leaves the bus idle. -/
theorem exists_publication {s : System} (hs : s.publishing = false) (e : Event) :
    ∃ called, Publication e s called ((publish e).perform s).1 ((publish e).perform s).2 := by
  have hbusy : ({ s with publishing := true } : System).publishing = true := rfl
  obtain ⟨called, h⟩ := exists_delivery e s.subscribers hbusy
  rw [perform_publish hs]
  generalize hperformed : (s.subscribers.forM (notify (publishAt 0) e)).perform
    { s with publishing := true } = performed at h ⊢
  obtain ⟨outcome, busy⟩ := performed
  obtain ⟨-, hheard, hjoined⟩ := h.frame hbusy
  refine ⟨called, ?_, ⟨busy, h, rfl⟩, h.called_prefix, ?_, ?_, hheard, hjoined, rfl⟩
  · rw [perform_publish hs, hperformed]
  · rintro rfl
    exact h.called_eq_of_ok
  · rintro f rfl
    obtain ⟨front, x, before, hcalled, hturn⟩ := h.exists_last_of_error
    exact ⟨front, x, before, busy, hcalled, hturn⟩

/-- What is asked of the bus from outside. -/
inductive Call
  | subscribe (subscriber : Subscriber)
  | publish (e : Event)
  | reset

/-- What a call does. -/
def Call.act : Call → Effect Unit
  | .subscribe subscriber => Bus.subscribe subscriber
  | .publish e => Bus.publish e
  | .reset => Bus.reset

/-- The system after calls, each of which is made whatever has become of those before. -/
def after (s : System) (calls : List Call) : System :=
  calls.foldl (fun t call => (call.act.perform t).2) s

theorem after_concat (s : System) (calls : List Call) (call : Call) :
    after s (calls ++ [call]) = (call.act.perform (after s calls)).2 := by
  rw [after, List.foldl_concat]
  rfl

/-- A call leaves an idle bus idle. -/
theorem publishing_act {s : System} (hs : s.publishing = false) (call : Call) :
    (call.act.perform s).2.publishing = false := by
  cases call with
  | subscribe subscriber => exact hs
  | publish e =>
      obtain ⟨called, h⟩ := exists_publication hs e
      exact h.idle
  | reset => exact hs

/-- **Between calls the bus is idle**, whatever its subscribers do. -/
theorem publishing_after {s : System} (hs : s.publishing = false) (calls : List Call) :
    (after s calls).publishing = false := by
  induction calls generalizing s with
  | nil => exact hs
  | cons call rest ih => exact ih (publishing_act hs call)

/-- **The bus delivers, after whatever calls.** From an idle bus, any calls lead to an idle bus, and from there an
event is published to the subscribers that are there by then: those that were brought in with a call or in a
turn since the last reset. What is published in a turn is noted on the console, and goes to nobody. -/
theorem delivers_after_calls {s : System} (hs : s.publishing = false) (calls : List Call) :
    (after s calls).publishing = false
      ∧ (after s (calls ++ [.reset])).subscribers = [.logger]
      ∧ (∀ x, (after s (calls ++ [.subscribe x])).subscribers = (after s calls).subscribers ++ [x])
      ∧ (∀ e, ∃ called outcome,
        Publication e (after s calls) called outcome (after s (calls ++ [.publish e])))
      ∧ ∀ t : System, t.publishing = true →
        ∀ e, (publish e).perform t = (.ok (), t.write .console reentrancyNote) := by
  refine ⟨publishing_after hs calls, ?_, ?_, ?_, fun t ht e => perform_publish_of_publishing ht e⟩
  · rw [after_concat]
    rfl
  · intro x
    rw [after_concat]
    rfl
  · intro e
    obtain ⟨called, h⟩ := exists_publication (publishing_after hs calls) e
    rw [after_concat]
    exact ⟨called, _, h⟩

/-- An event that the default logger drops. -/
def quietEvent : Event where
  severity := .debug
  id := Bytes.ascii "tick"

/-- A listener that brings in one that fails, one that does nothing, one that publishes in its turn, and the
event for the first time. -/
def callsOfRecruiter : List Call :=
  [.subscribe (.recruiter (Bytes.ascii "a") (.failing (Bytes.ascii "b") (.other (Bytes.ascii "no")))),
    .subscribe .idle, .subscribe (.republisher (Bytes.ascii "c") (Bytes.ascii "nested")), .publish quietEvent]

/-- The newcomer hears the event when it comes again, and fails its publication. -/
theorem delivers_after_calls_of_recruiter :
    (after {} callsOfRecruiter).publishing = false
      ∧ ∃ called again, Publication quietEvent (after {} callsOfRecruiter) called
          (.error (.other (Bytes.ascii "no"))) again
        ∧ again.delivered = [(Bytes.ascii "a", quietEvent), (Bytes.ascii "c", quietEvent),
          (Bytes.ascii "a", quietEvent), (Bytes.ascii "c", quietEvent), (Bytes.ascii "b", quietEvent)]
        ∧ again.publishing = false := by
  obtain ⟨hidle, -, -, hdelivers, -⟩ := delivers_after_calls (s := {}) rfl callsOfRecruiter
  obtain ⟨called, outcome, h⟩ := hdelivers quietEvent
  obtain rfl : outcome = .error (.other (Bytes.ascii "no")) := congrArg Prod.fst h.published.symm
  exact ⟨hidle, called, _, h, rfl, h.idle⟩

end Bus

end SignedAudit
