import SignedAudit.Proofs.Delivery
import SignedAudit.Proofs.FailClosed
import SignedAudit.Proofs.TamperEvidence

namespace SignedAudit

/-! # Alarms tell what was turned down

A verification publishes two events at most: that the signature could not be computed again, and that the record
was turned down. In a calm system each of them reaches every subscriber, the log included, and the system is calm
and the bus idle afterwards. So along a whole run of verifications nothing fails, the alarms are those of the
records that were turned down, and what is delivered tells which these are, also where no plain digest can be
computed for the log. -/

open Effect

/-! ## Events one behind the other -/

namespace Bus

/-- **Events are published one behind the other**, and each goes to all subscribers that are there by then. -/
inductive Broadcast : List Event → System → System → Prop
  | done (s : System) : Broadcast [] s s
  | next {e : Event} {rest : List Event} {s u t : System}
      (h : Publication e s (s.subscribers.filter (· ≠ .idle)) (.ok ()) u) (hrest : Broadcast rest u t) :
      Broadcast (e :: rest) s t

/-- In a calm system a publication goes through, and to all subscribers. -/
theorem exists_broadcast_of_calm {s : System} (hcalm : s.Calm) (hidle : s.publishing = false) (e : Event) :
    ∃ t, (publish e).perform s = (.ok (), t) ∧ Broadcast [e] s t := by
  obtain ⟨called, h⟩ := exists_publication hidle e
  obtain ⟨hok, -⟩ := perform_publish_of_calm hcalm e
  rw [hok] at h
  rw [h.complete rfl] at h
  exact ⟨_, h.published, .next h (.done _)⟩

namespace Broadcast

variable {events : List Event} {s t : System}

theorem append (h : Broadcast events s t) {more : List Event} {u : System} (hmore : Broadcast more t u) :
    Broadcast (events ++ more) s u := by
  induction h with
  | done s => exact hmore
  | next h hrest ih => exact .next h (ih hmore)

theorem calm (h : Broadcast events s t) (hs : s.Calm) : t.Calm := by
  induction h with
  | done s => exact hs
  | @next e rest s u t h hrest ih =>
      obtain ⟨-, hafter⟩ := perform_publish_of_calm hs e
      rw [h.published] at hafter
      exact ih hafter

theorem idle (h : Broadcast events s t) (hs : s.publishing = false) : t.publishing = false := by
  induction h with
  | done s => exact hs
  | next h hrest ih => exact ih h.idle

/-- No subscriber is lost. -/
theorem subscribers_prefix (h : Broadcast events s t) : s.subscribers <+: t.subscribers := by
  induction h with
  | done s => exact List.prefix_rfl
  | next h hrest ih =>
      rw [h.joined] at ih
      exact (List.prefix_append _ _).trans ih

/-- **Where nobody brings in others, every listener hears every event once**, and there is nothing else to
hear. -/
theorem heard (h : Broadcast events s t) (hs : ∀ x ∈ s.subscribers, x.newcomer? = none) :
    t.subscribers = s.subscribers
      ∧ t.delivered = s.delivered ++ events.flatMap fun e => s.subscribers.filterMap (·.heard e) := by
  induction h with
  | done s => exact ⟨rfl, (List.append_nil _).symm⟩
  | @next e rest s u t h hrest ih =>
      have hnobody : (s.subscribers.filter (· ≠ .idle)).filterMap (·.newcomer?) = [] :=
        List.filterMap_eq_nil_iff.mpr fun x hx => hs x (List.mem_of_mem_filter hx)
      have hsame : u.subscribers = s.subscribers := by
        rw [h.joined, hnobody, List.append_nil]
      -- who does nothing hears nothing either, and need not be left out
      have hlisteners : (s.subscribers.filter (· ≠ .idle)).filterMap (·.heard e)
          = s.subscribers.filterMap (·.heard e) := by
        rw [List.filterMap_filter]
        congr 1
        funext x
        cases x <;> rfl
      obtain ⟨hsubscribers, hdelivered⟩ := ih (by rw [hsame]; exact hs)
      refine ⟨hsubscribers.trans hsame, ?_⟩
      rw [hdelivered, h.heard, hlisteners, hsame, List.flatMap_cons, List.append_assoc]

end Broadcast

end Bus

/-! ## What a verification publishes -/

/-- **An event is the alarm about a record**: it says which record and action it was, and who the actor was, of whom a
digest is shown at most. -/
structure Event.IsAlarm (e : Event) (r : Record) : Prop where
  id : e.id = Bytes.ascii "audit_record_tampered"
  category : e.category = .security
  severity : e.severity = .warning
  message : e.message = Bytes.ascii "Audit record failed signature verification"
  fields : e.fields = [
    { key := Bytes.ascii "record_id", value := r.id },
    { key := Bytes.ascii "action", value := r.action },
    { key := Bytes.ascii "actor_id", value := r.actorId, privacy := .hashed }]

theorem Event.isAlarm_tamperedEvent (r : Record) : (Trail.tamperedEvent r).IsAlarm r :=
  ⟨rfl, rfl, rfl, rfl, rfl⟩

namespace Signer

/-- **The signature cannot be computed again**: the candidate has the length of one, so that this is tried, and the
keyed digest fails. -/
structure Faults (signer : Signer) (s : System) (a : Attestation) (signature : Bytes) (f : Failure) : Prop where
  length : signature.length = 64
  keyed : s.provider.hmac s.calls signer.secret a.canonical = .error f

/-- **Verification of a signature in a calm system** comes to an answer without any event, or there is a fault, and
the answer is no after the report of it. -/
theorem exists_verify_of_calm {s : System} (hcalm : s.Calm) (hidle : s.publishing = false) (signer : Signer)
    (a : Attestation) (signature : Bytes) :
    (∃ valid calls, (signer.verify a signature).perform s = (.ok valid, { s with calls })
        ∧ ∀ f, ¬ signer.Faults s a signature f)
      ∨ ∃ f report calls t, signer.Faults s a signature f ∧ report.IsFaultReport a.eventId f.what
        ∧ (signer.verify a signature).perform s = (.ok false, t)
        ∧ Bus.Broadcast [report] { s with calls } t := by
  by_cases hlength : signature.length = Signature.length
  · cases htag : signer.tag s a.canonical with
    | ok d =>
        refine .inl ⟨_, s.calls + 1, perform_verify_of_ok htag hlength, ?_⟩
        intro f hfault
        have hkeyed : signer.tag s a.canonical = .error f := hfault.keyed
        rw [htag] at hkeyed
        cases hkeyed
    | error f =>
        have hasked : (asked s).Calm := ⟨hcalm.tame, hcalm.hashes⟩
        obtain ⟨t, hpublish, hpublished⟩ :=
          Bus.exists_broadcast_of_calm hasked hidle (faultEvent a.eventId f.what)
        have hverify := perform_verify_of_error htag hlength
        rw [hpublish] at hverify
        exact .inr ⟨f, _, s.calls + 1, t, ⟨hlength, htag⟩, Event.isFaultReport_faultEvent _ _, hverify, hpublished⟩
  · refine .inl ⟨false, s.calls, perform_verify_of_length_ne hlength signer a s, ?_⟩
    intro f hfault
    exact hlength hfault.length

end Signer

namespace Trail

/-- **What is told of a verification**: nothing if the record passes, and an alarm if it is turned down. In front of
the alarm there is the report of the fault if the signature could not be computed again, and the record does not pass
then. -/
inductive Told (signer : Signer) (s : System) (r : Record) : Bool → List Event → Prop
  | passed (hcomputed : ∀ f, ¬ signer.Faults s r.attestation r.signature f) : Told signer s r true []
  | rejected {alarm : Event} (hcomputed : ∀ f, ¬ signer.Faults s r.attestation r.signature f)
      (halarm : alarm.IsAlarm r) : Told signer s r false [alarm]
  | faulted {f : Failure} {report alarm : Event} (hfault : signer.Faults s r.attestation r.signature f)
      (hreport : report.IsFaultReport r.id f.what) (halarm : alarm.IsAlarm r) : Told signer s r false [report, alarm]

/-- A record whose signature is turned down raises an alarm. -/
theorem exists_alarm_of_calm {trail : Trail} {r : Record} {s t : System} (hcalm : t.Calm)
    (hidle : t.publishing = false)
    (hverify : (trail.signer.verify r.attestation r.signature).perform s = (.ok false, t)) :
    ∃ alarm u, alarm.IsAlarm r ∧ (trail.verify r).perform s = (.ok false, u) ∧ Bus.Broadcast [alarm] t u := by
  obtain ⟨u, hpublish, hpublished⟩ := Bus.exists_broadcast_of_calm hcalm hidle (tamperedEvent r)
  refine ⟨tamperedEvent r, u, Event.isAlarm_tamperedEvent r, ?_, hpublished⟩
  rw [perform_verify, hverify]
  dsimp only
  rw [hpublish]
  rfl

/-- **Verification of a record in a calm system** comes to an answer, and what is told of it goes to all
subscribers. -/
theorem exists_verify_of_calm {s : System} (hcalm : s.Calm) (hidle : s.publishing = false) (trail : Trail)
    (r : Record) :
    ∃ valid events calls t, (trail.verify r).perform s = (.ok valid, t) ∧ Told trail.signer s r valid events
      ∧ Bus.Broadcast events { s with calls } t := by
  rcases Signer.exists_verify_of_calm hcalm hidle trail.signer r.attestation r.signature with
    ⟨valid, calls, hverify, hcomputed⟩ | ⟨f, report, calls, t, hfault, hreport, hverify, hpublished⟩
  · cases valid with
    | true => exact ⟨true, [], calls, _, by rw [perform_verify, hverify], .passed hcomputed, .done _⟩
    | false =>
        have hquiet : ({ s with calls } : System).Calm := ⟨hcalm.tame, hcalm.hashes⟩
        obtain ⟨alarm, u, halarm, hrejected, hraised⟩ := exists_alarm_of_calm hquiet hidle hverify
        exact ⟨false, [alarm], calls, u, hrejected, .rejected hcomputed halarm, hraised⟩
  · -- the alarm is published in the system that the report of the fault has left
    obtain ⟨alarm, u, halarm, hrejected, hraised⟩ :=
      exists_alarm_of_calm (hpublished.calm ⟨hcalm.tame, hcalm.hashes⟩) (hpublished.idle hidle) hverify
    exact ⟨false, [report, alarm], calls, u, hrejected, .faulted hfault hreport halarm, hpublished.append hraised⟩

/-! ## Inspections -/

/-- A record that is to be verified, and the time by then. -/
structure Check where
  record : Record
  time : Instant

/-- A verification that was made: the record, the system that it found, what it came to, and the system that it
left. -/
structure Inspection where
  record : Record
  before : System
  outcome : Except Failure Bool
  after : System

/-- Verifies a record and takes note of it. -/
def inspect (trail : Trail) (check : Check) : Effect Inspection := do
  modify fun s => { s with now := check.time }
  let before ← get
  let outcome ← attempt (trail.verify check.record)
  return { record := check.record, before, outcome, after := ← get }

/-- Verifies one record after the other. -/
def inspectAll (trail : Trail) : List Check → Effect (List Inspection)
  | [] => return []
  | check :: rest => do
    let inspection ← trail.inspect check
    return inspection :: (← inspectAll trail rest)

/-- **An inspection is reported**: it came to an answer, and the events told of it, and no others, went to all
subscribers. -/
structure Inspection.Reported (signer : Signer) (i : Inspection) (events : List Event) : Prop where
  told : ∃ valid, i.outcome = .ok valid ∧ Told signer i.before i.record valid events
  published : ∃ calls, Bus.Broadcast events { i.before with calls } i.after

/-- Every inspection in a calm system is reported. -/
theorem exists_inspect_of_calm {s : System} (hcalm : s.Calm) (hidle : s.publishing = false) (trail : Trail)
    (check : Check) :
    ∃ i events, (trail.inspect check).perform s = (.ok i, i.after) ∧ i.record = check.record
      ∧ i.before = { s with now := check.time } ∧ i.Reported trail.signer events := by
  obtain ⟨valid, events, calls, t, hverify, htold, hpublished⟩ :=
    exists_verify_of_calm (s := { s with now := check.time }) ⟨hcalm.tame, hcalm.hashes⟩ hidle trail check.record
  refine ⟨⟨check.record, { s with now := check.time }, .ok valid, t⟩, events, ?_, rfl, rfl, ⟨valid, rfl, htold⟩,
    calls, hpublished⟩
  simp only [inspect, perform_bind, perform_modify, perform_get, perform_attempt, hverify, perform_pure]

/-- **Alarms match rejections.** In a calm system, every run of verifications goes through without a failure, and each
of them is reported, to all subscribers that there are by then, those of the beginning among them. What is told of a
record is an alarm with its identifier, its action and its actor if it was turned down, just behind the report of a
fault if its signature has 64 bytes and the keyed digest failed, and nothing else. Where nobody brings in others,
every listener of the beginning has noted just these events, in their order. -/
theorem alarms_match_rejections {s : System} (hcalm : s.Calm) (hidle : s.publishing = false) (trail : Trail)
    (checks : List Check) :
    ∃ inspections told t, (trail.inspectAll checks).perform s = (.ok inspections, t)
      ∧ inspections.map Inspection.record = checks.map Check.record
      ∧ List.Forall₂ (Inspection.Reported trail.signer) inspections told
      ∧ (∀ i ∈ inspections, s.subscribers <+: i.before.subscribers)
      ∧ ((∀ x ∈ s.subscribers, x.newcomer? = none) →
        t.delivered = s.delivered ++ told.flatten.flatMap fun e => s.subscribers.filterMap (·.heard e)) := by
  induction checks generalizing s with
  | nil => exact ⟨[], [], s, rfl, rfl, .nil, List.forall_mem_nil _, fun _ => (List.append_nil _).symm⟩
  | cons check rest ih =>
      obtain ⟨i, events, hinspect, hrecord, hbefore, hreported⟩ := exists_inspect_of_calm hcalm hidle trail check
      obtain ⟨calls, hpublished⟩ := hreported.published
      rw [hbefore] at hpublished
      -- the run goes on in the system that the first inspection has left
      obtain ⟨inspections, told, t, hall, hrecords, heach, hthere, hheard⟩ :=
        ih (hpublished.calm ⟨hcalm.tame, hcalm.hashes⟩) (hpublished.idle hidle)
      have hstart : i.before.subscribers = s.subscribers := by rw [hbefore]
      refine ⟨i :: inspections, events :: told, t, ?_, ?_, .cons hreported heach, ?_, ?_⟩
      · simp only [inspectAll, perform_bind, hinspect, hall, perform_pure]
      · rw [List.map_cons, List.map_cons, hrecord, hrecords]
      · refine List.forall_mem_cons.mpr ⟨hstart ▸ List.prefix_rfl, ?_⟩
        intro j hj
        exact hpublished.subscribers_prefix.trans (hthere j hj)
      · intro hnobody
        obtain ⟨hsame, hfirst⟩ := hpublished.heard hnobody
        rw [hheard (by rw [hsame]; exact hnobody), hsame, hfirst, List.flatten_cons, List.flatMap_append,
          List.append_assoc]

/-- A log and a listener, where the keyed digest fails at the first call and is constant then, and the plain digest
always fails. -/
def faultySystem : System where
  provider := {
    hmac := fun call _ _ => if call = 0 then .error Signer.providerFault else .ok (FixedBytes.replicate 32 0)
    sha256 := fun _ _ => .error Signer.providerFault }
  subscribers := [.logger, .recorder (Bytes.ascii "a")]

/-- The same record three times: when the keyed digest fails, with a candidate that is too short, and when all is
well. -/
def checksOfFaults : List Check :=
  [⟨recordAtEpoch "alice" "10.0.0.1" Signer.zeroDigits, .epoch⟩, ⟨recordAtEpoch "alice" "10.0.0.1" [], .epoch⟩,
    ⟨recordAtEpoch "alice" "10.0.0.1" Signer.zeroDigits, .epoch⟩]

/-- The listener notes a fault and two alarms, and nothing about the record that passes. -/
theorem alarms_match_rejections_faults :
    ∃ inspections t report first second,
      ((⟨Signer.zeroNonceSigner, []⟩ : Trail).inspectAll checksOfFaults).perform faultySystem = (.ok inspections, t)
        ∧ inspections.map (fun i => i.outcome.toOption) = [some false, some false, some true]
        ∧ t.delivered = [(Bytes.ascii "a", report), (Bytes.ascii "a", first), (Bytes.ascii "a", second)]
        ∧ report.IsFaultReport (Bytes.ascii "id") Signer.providerFault.what
        ∧ first.IsAlarm (recordAtEpoch "alice" "10.0.0.1" Signer.zeroDigits)
        ∧ second.IsAlarm (recordAtEpoch "alice" "10.0.0.1" []) := by
  have hcalm : faultySystem.Calm := by
    refine ⟨by decide, ?_⟩
    rintro call data message ⟨⟩
  obtain ⟨inspections, told, t, hperform, hrecords, hreported, -, hheard⟩ :=
    alarms_match_rejections hcalm rfl ⟨Signer.zeroNonceSigner, []⟩ checksOfFaults
  -- the outcomes, and the failures of the keyed digest that were met
  have hseen : (((⟨Signer.zeroNonceSigner, []⟩ : Trail).inspectAll checksOfFaults).perform
      faultySystem).1.toOption.map (List.map fun i => (i.outcome.toOption,
        match Signer.zeroNonceSigner.tag i.before i.record.attestation.canonical with
        | .ok _ => none
        | .error f => some f))
        = some [(some false, some Signer.providerFault), (some false, none), (some true, none)] := by
    decide +kernel
  rw [hperform] at hseen
  have hlength : inspections.length = 3 := by simpa [checksOfFaults] using congrArg List.length hrecords
  obtain ⟨i, j, k, rfl⟩ := List.length_eq_three.mp hlength
  obtain _ | ⟨⟨⟨_, hi, hitold⟩, -⟩, hrest⟩ := hreported
  obtain _ | ⟨⟨⟨_, hj, hjtold⟩, -⟩, hrest⟩ := hrest
  obtain _ | ⟨⟨⟨_, hk, hktold⟩, -⟩, _ | _⟩ := hrest
  simp only [Except.toOption, Option.map_some, List.map_cons, hi, hj, hk, List.map_nil, Option.some.injEq,
    List.cons.injEq, Prod.mk.injEq, and_true] at hseen
  simp only [List.map_cons, List.map_nil, checksOfFaults, List.cons.injEq, and_true] at hrecords
  obtain ⟨⟨rfl, hfailed⟩, ⟨rfl, -⟩, rfl, -⟩ := hseen
  obtain ⟨hirecord, hjrecord, -⟩ := hrecords
  have hkeyed : Signer.zeroNonceSigner.tag i.before i.record.attestation.canonical = .error Signer.providerFault := by
    split at hfailed
    · cases hfailed
    · next f htag => rw [htag, Option.some.inj hfailed]
  rw [hirecord] at hitold hkeyed
  rw [hjrecord] at hjtold
  cases hktold
  cases hitold with
  | rejected hcomputed => exact absurd ⟨rfl, hkeyed⟩ (hcomputed Signer.providerFault)
  | faulted hfault hreport hfirst =>
      obtain rfl := Except.error.inj (hkeyed.symm.trans hfault.keyed)
      -- the second candidate is too short for a fault
      cases hjtold with
      | faulted hfault => cases hfault.length
      | rejected hcomputed hsecond =>
          refine ⟨[i, j, k], t, _, _, _, hperform, ?_, hheard (by decide), hreport, hfirst, hsecond⟩
          simp only [List.map_cons, List.map_nil, hi, hj, hk, Except.toOption]

end Trail

end SignedAudit
