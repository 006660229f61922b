import SignedAudit.Proofs.TamperEvidence

namespace SignedAudit

/-! # The trail as a ledger

Whatever is done with a trail and around it, its records are those that its loggings have returned, one behind
the other as they were made: a logging that fails adds nothing, and nothing is taken away or altered, neither
by verification nor by whoever changes a copy. Each record holds its entry and the signature of the moment,
and it passes wherever the keyed digest is the same function as it was then. -/

open Effect

namespace Trail

/-! ## What is done with a trail -/

/-- What is done with a trail, or happens around it. -/
inductive Call
  /-- An entry is logged, with random bytes for its identifier if there are any. -/
  | log (e : Entry) (seed : Except Failure (FixedBytes 16))
  /-- A record is verified, be it one of the trail or not. -/
  | verify (r : Record)
  /-- All records are asked for. -/
  | records
  /-- Whoever holds copies of records changes them. -/
  | edit (change : List Record → List Record)
  /-- The system changes: its provider, say, or the time. -/
  | meanwhile (change : System → System)

/-- What a call answers. -/
inductive Answer
  | logged (r : Record)
  | verdict (valid : Bool)
  | listed (records : List Record)
  | failed (f : Failure)
  | done

/-- A trail, the system around it, and the copies of records that were handed out. -/
structure Desk where
  trail : Trail
  system : System := {}
  copies : List Record := []

/-- A desk with an empty trail. -/
def Desk.fresh (signer : Signer) (s : System) : Desk := { trail := { signer }, system := s }

/-- Logging, with the random bytes asked for first. -/
def logFrom (trail : Trail) (e : Entry) (seed : Except Failure (FixedBytes 16)) : Effect (Record × Trail) := do
  trail.log e (← Effect.ofExcept seed)

/-- One call: what it answers, and what is on the desk after it. -/
def Call.act : Call → Desk → Answer × Desk
  | .log e seed, d =>
    match (d.trail.logFrom e seed).perform d.system with
    | (.ok (r, trail), system) => (.logged r, { trail, system, copies := d.copies ++ [r] })
    | (.error f, system) => (.failed f, { d with system })
  | .verify r, d =>
    match (d.trail.verify r).perform d.system with
    | (.ok valid, system) => (.verdict valid, { d with system })
    | (.error f, system) => (.failed f, { d with system })
  | .records, d => (.listed d.trail.records, { d with copies := d.copies ++ d.trail.records })
  | .edit change, d => (.done, { d with copies := change d.copies })
  | .meanwhile change, d => (.done, { d with system := change d.system })

/-- A call that was made: the system at that moment, and what was answered. -/
structure Turn where
  call : Call
  moment : System
  answer : Answer

/-- The record that was returned, if the turn was a logging that succeeded. -/
def Turn.logged? (turn : Turn) : Option Record :=
  match turn.answer with
  | .logged r => some r
  | _ => none

theorem Turn.logged?_eq_none {turn : Turn} (h : ∀ r, turn.answer ≠ .logged r) : turn.logged? = none := by
  unfold Turn.logged?
  split
  · next r hanswer => exact absurd hanswer (h r)
  · rfl

/-- Calls one after the other: all turns, and the desk in the end. -/
def run (d : Desk) : List Call → List Turn × Desk
  | [] => ([], d)
  | call :: rest =>
    (⟨call, d.system, (call.act d).1⟩ :: (run (call.act d).2 rest).1, (run (call.act d).2 rest).2)

theorem run_append (d : Desk) (calls more : List Call) :
    run d (calls ++ more)
      = ((run d calls).1 ++ (run (run d calls).2 more).1, (run (run d calls).2 more).2) := by
  induction calls generalizing d with
  | nil => rfl
  | cons call rest ih => simp only [List.cons_append, run, ih]

/-! ## Genuine records -/

/-- **A genuine record** of an entry, with an identifier from the given bytes, signed at a moment. -/
structure IsGenuine (signer : Signer) (e : Entry) (seed : FixedBytes 16) (moment : System) (r : Record) :
    Prop where
  /-- The entry is as it was given. -/
  entry : r.toEntry = e
  id : r.id = Record.newId seed
  time : r.time = moment.now
  /-- The signature is the one that signing makes at that moment of the identifier, the time, the address and the
  payload that is made of the entry. -/
  signature : ((signer.sign { eventId := r.id, time := r.time, sourceIp := r.ipAddress, payload := r.payload }).perform
    moment).1 = .ok r.signature
  /-- Wherever the keyed digest is the same function, the record passes, and without an alarm. -/
  passes : ∀ (records : List Record) (t : System),
    t.provider.hmac t.calls = moment.provider.hmac moment.calls →
      ((⟨signer, records⟩ : Trail).verify r).perform t = (.ok true, Signer.asked t)

/-- A record with the signature of a moment passes wherever the keyed digest is the same function. -/
theorem perform_verify_of_sign {signer : Signer} {moment : System} {r : Record}
    (hsign : ((signer.sign r.attestation).perform moment).1 = .ok r.signature) (records : List Record)
    {t : System} (hsame : t.provider.hmac t.calls = moment.provider.hmac moment.calls) :
    ((⟨signer, records⟩ : Trail).verify r).perform t = (.ok true, Signer.asked t) := by
  obtain ⟨digest, htag, hsignature⟩ := Signer.exists_tag_of_signText hsign
  have hlater : signer.tag t r.attestation.canonical = .ok digest := by
    rw [Signer.tag, hsame]
    exact htag
  have hlength : r.signature.length = Signature.length := by
    rw [hsignature, Signature.length_ofDigest]
  rw [perform_verify, Signer.perform_verify_of_ok hlater hlength, decide_eq_true hsignature.symm]

/-- What logging returns is genuine. -/
theorem isGenuine_of_log {trail after : Trail} {e : Entry} {seed : FixedBytes 16} {s : System} {r : Record}
    (h : ((trail.log e seed).perform s).1 = .ok (r, after)) : IsGenuine trail.signer e seed s r := by
  obtain ⟨hid, hentry, htime, hsign⟩ := perform_log_ok h
  exact ⟨hentry, hid, htime, hsign, fun records t => perform_verify_of_sign hsign records⟩

/-! ## What the trail holds -/

/-- **What makes a logging fail**: there are no random bytes, or there is no keyed digest of the text to be
signed. -/
inductive Faults (d : Desk) (e : Entry) : Except Failure (FixedBytes 16) → Failure → Prop
  | noBytes (f : Failure) : Faults d e (.error f) f
  | noDigest {seed : FixedBytes 16} {f : Failure}
      (h : d.trail.signer.tag d.system (draft e seed d.system.now).attestation.canonical = .error f) :
      Faults d e (.ok seed) f

/-- **What a logging comes to**: a genuine record, with which the trail ends then, or a failure that has a cause,
and the trail is as it was. -/
theorem act_log (d : Desk) (e : Entry) (seed : Except Failure (FixedBytes 16)) :
    (∃ bytes r, seed = .ok bytes ∧ (Call.act (.log e seed) d).1 = .logged r
        ∧ IsGenuine d.trail.signer e bytes d.system r
        ∧ (Call.act (.log e seed) d).2.trail = { d.trail with records := d.trail.records ++ [r] })
      ∨ ∃ f, Faults d e seed f ∧ (Call.act (.log e seed) d).1 = .failed f
        ∧ (Call.act (.log e seed) d).2.trail = d.trail := by
  cases seed with
  | error f => exact .inr ⟨f, .noBytes f, rfl, rfl⟩
  | ok bytes =>
      have hfrom : (d.trail.logFrom e (.ok bytes)).perform d.system = (d.trail.log e bytes).perform d.system := by
        rw [logFrom, perform_bind, perform_ofExcept]
      have hlog := d.trail.perform_log e bytes d.system
      rw [Call.act, hfrom]
      cases htag : d.trail.signer.tag d.system (draft e bytes d.system.now).attestation.canonical with
      | error f =>
          rw [htag] at hlog
          rw [hlog]
          exact .inr ⟨f, .noDigest htag, rfl, rfl⟩
      | ok digest =>
          rw [htag] at hlog
          have hgenuine := isGenuine_of_log (congrArg Prod.fst hlog)
          rw [hlog]
          exact .inl ⟨bytes, _, rfl, rfl, hgenuine, rfl⟩

/-- **Nothing but logging touches the trail**, or answers with a record that was logged. -/
theorem act_of_not_log {call : Call} (h : ∀ e seed, call ≠ .log e seed) (d : Desk) :
    (call.act d).2.trail = d.trail ∧ ∀ r, (call.act d).1 ≠ .logged r := by
  cases call with
  | log e seed => exact absurd rfl (h e seed)
  | verify r =>
      rw [Call.act]
      rcases (d.trail.verify r).perform d.system with ⟨_ | _, after⟩ <;> simp
  | records => simp [Call.act]
  | edit change => simp [Call.act]
  | meanwhile change => simp [Call.act]

/-- One turn adds to the records what it has logged, and what it has logged is genuine. -/
theorem act_spec (call : Call) (d : Desk) :
    (call.act d).2.trail = { d.trail with
        records := d.trail.records ++ (Turn.logged? ⟨call, d.system, (call.act d).1⟩).toList }
      ∧ ∀ r, (call.act d).1 = .logged r →
        ∃ e bytes, call = .log e (.ok bytes) ∧ IsGenuine d.trail.signer e bytes d.system r := by
  by_cases hlog : ∃ e seed, call = .log e seed
  · obtain ⟨e, seed, rfl⟩ := hlog
    rcases act_log d e seed with ⟨bytes, r, rfl, hanswer, hgenuine, htrail⟩ | ⟨f, -, hanswer, htrail⟩
    · refine ⟨by rw [htrail, hanswer]; rfl, ?_⟩
      intro r' hr'
      rw [hanswer] at hr'
      cases hr'
      exact ⟨e, bytes, rfl, hgenuine⟩
    · refine ⟨by rw [htrail, hanswer]; simp [Turn.logged?], ?_⟩
      intro r hr
      rw [hanswer] at hr
      cases hr
  · have hother : ∀ e seed, call ≠ .log e seed := by
      intro e seed h
      exact hlog ⟨e, seed, h⟩
    obtain ⟨htrail, hanswer⟩ := act_of_not_log hother d
    refine ⟨?_, fun r hr => absurd hr (hanswer r)⟩
    rw [htrail, Turn.logged?_eq_none hanswer, Option.toList_none, List.append_nil]

/-- **A run adds to the records what its turns have logged**, in their order, and all of it is genuine. -/
theorem run_spec (d : Desk) (calls : List Call) :
    (run d calls).2.trail
        = { d.trail with records := d.trail.records ++ (run d calls).1.filterMap Turn.logged? }
      ∧ ∀ turn ∈ (run d calls).1, ∀ r, turn.answer = .logged r →
        ∃ e bytes, turn.call = .log e (.ok bytes) ∧ IsGenuine d.trail.signer e bytes turn.moment r := by
  induction calls generalizing d with
  | nil => simp [run]
  | cons call rest ih =>
      obtain ⟨htrail, hgenuine⟩ := act_spec call d
      obtain ⟨htrails, hgenuines⟩ := ih (call.act d).2
      -- the signer is that of the desk before the turn
      have hsigner : (call.act d).2.trail.signer = d.trail.signer := by rw [htrail]
      rw [hsigner] at hgenuines
      constructor
      · rw [run, htrails, htrail, List.filterMap_cons]
        cases Turn.logged? ⟨call, d.system, (call.act d).1⟩ <;> simp
      · exact List.forall_mem_cons.mpr ⟨hgenuine, hgenuines⟩

/-- **The trail is a ledger.** Whatever is done with a trail that was empty, and whatever happens to the system
meanwhile, the trail answers with the records that its loggings have returned, in their order, and nothing that
comes later takes one away. A logging fails only for lack of random bytes or of a keyed digest, and leaves the
trail as it was then. Every record that was logged is genuine. -/
theorem keeps_what_was_logged (signer : Signer) (s : System) (calls : List Call) :
    (run (.fresh signer s) calls).2.trail
        = ⟨signer, (run (.fresh signer s) calls).1.filterMap Turn.logged?⟩
      ∧ (Call.records.act (run (.fresh signer s) calls).2).1
        = .listed ((run (.fresh signer s) calls).1.filterMap Turn.logged?)
      ∧ (∀ more, (run (.fresh signer s) calls).2.trail.records
        <+: (run (.fresh signer s) (calls ++ more)).2.trail.records)
      ∧ (∀ e seed, (∃ r, ((Call.log e seed).act (run (.fresh signer s) calls).2).1 = .logged r)
        ∨ ∃ f, Faults (run (.fresh signer s) calls).2 e seed f
          ∧ ((Call.log e seed).act (run (.fresh signer s) calls).2).1 = .failed f
          ∧ ((Call.log e seed).act (run (.fresh signer s) calls).2).2.trail
            = (run (.fresh signer s) calls).2.trail)
      ∧ ∀ turn ∈ (run (.fresh signer s) calls).1, ∀ r, turn.answer = .logged r →
        ∃ e bytes, turn.call = .log e (.ok bytes) ∧ IsGenuine signer e bytes turn.moment r := by
  obtain ⟨htrail, hgenuine⟩ := run_spec (.fresh signer s) calls
  refine ⟨htrail, ?_, ?_, ?_, hgenuine⟩
  · rw [Call.act, htrail]
    rfl
  · intro more
    obtain ⟨hmore, -⟩ := run_spec (run (.fresh signer s) calls).2 more
    rw [run_append, hmore]
    exact List.prefix_append _ _
  · intro e seed
    rcases act_log (run (.fresh signer s) calls).2 e seed with ⟨bytes, r, -, hanswer, -⟩ | hfailed
    · exact .inl ⟨r, hanswer⟩
    · exact .inr hfailed

/-- An entry is logged and its copy thrown away; then the provider fails, and random bytes do. -/
def callsOfFaults : List Call :=
  [.log (recordAtEpoch "alice" "10.0.0.1" []).toEntry (.ok (.zero 16)), .edit fun _ => [],
    .meanwhile fun s => { s with provider := .failing (.other (Bytes.ascii "no")) },
    .log (recordAtEpoch "bob" "10.0.0.2" []).toEntry (.ok (.zero 16)),
    .log (recordAtEpoch "bob" "10.0.0.2" []).toEntry (.error (.other (Bytes.ascii "no bytes"))), .records]

/-- The one record stays, and passes where the provider works. -/
theorem keeps_what_was_logged_faults :
    ∃ r, (run (.fresh Signer.zeroNonceSigner Signer.lengthSystem) callsOfFaults).2.trail.records = [r]
      ∧ r.toEntry = (recordAtEpoch "alice" "10.0.0.1" []).toEntry
      ∧ (((⟨Signer.zeroNonceSigner, []⟩ : Trail).verify r).perform Signer.lengthSystem).1 = .ok true := by
  obtain ⟨htrail, -, -, -, hgenuine⟩ :=
    keeps_what_was_logged Signer.zeroNonceSigner Signer.lengthSystem callsOfFaults
  let unsigned := draft (recordAtEpoch "alice" "10.0.0.1" []).toEntry (.zero 16) .epoch
  let r := unsigned.signed (Signature.ofDigest
    (FixedBytes.replicate 32 (UInt8.ofNat unsigned.attestation.canonical.length)))
  obtain ⟨e, bytes, hcall, h⟩ := hgenuine ⟨_, _, .logged r⟩ List.mem_cons_self r rfl
  obtain ⟨rfl, -⟩ := Call.log.inj hcall
  refine ⟨r, ?_, h.entry, congrArg Prod.fst (h.passes [] Signer.lengthSystem rfl)⟩
  rw [htrail]
  rfl

end Trail

end SignedAudit
