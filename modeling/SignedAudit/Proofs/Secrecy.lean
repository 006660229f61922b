import Mathlib.Data.List.Forall2
import SignedAudit.Proofs.Twins

namespace SignedAudit

/-! # The secret does not reach the log

Whatever is done with signers, once with one secret and once with another one that looks like it, the same
events are published, the same is written to every log, and the same failures are met. What a caller is given
may differ in the secret that is loaded, in signatures and in verdicts, and in nothing else. The secret has a
part in events through its length and through being empty or the placeholder, and a part in the calls of the
provider, whose failures do not depend on it. -/

open Effect

variable {held : SecretFiles}

/-! ## Loading -/

/-- **Environments that look alike**: they differ in the secret at most, and both secrets look alike. -/
structure Environment.Twin (env env' : Environment) : Prop where
  secret : Option.Rel Config.SecretsAlike env.secret env'.secret
  secretFile : env.secretFile = env'.secretFile
  logMinSeverity : env.logMinSeverity = env'.logMinSeverity
  logFile : env.logFile = env'.logFile

namespace Config

/-- Configurations that look alike. -/
structure Twin (config config' : Config) : Prop where
  secret : SecretsAlike config.secret config'.secret
  logFile : config.logFile = config'.logFile
  minimum : config.minimum = config'.minimum

/-- Sources of secrets that look alike: two secrets, or one file. -/
inductive Source.Twin : Source → Source → Prop
  | inline {a b : Bytes} (h : SecretsAlike a b) : Twin (.inline a) (.inline b)
  | file (path : Bytes) : Twin (.file path) (.file path)

theorem matches_source? {env env' : Environment} (h : env.Twin env') :
    Matches Source.Twin (source? env) (source? env') := by
  have hsecret := h.secret
  unfold source?
  rw [h.secretFile]
  generalize env.secret = secret at hsecret
  generalize env'.secret = secret' at hsecret
  cases hsecret with
  | none =>
      cases env'.secretFile with
      | none => exact .error _
      | some path => exact .ok (.file path)
  | some halike =>
      cases env'.secretFile with
      | none => exact .ok (.inline halike)
      | some path => exact .error _

theorem matches_readSource (hheld : held.Alike) {files files' : FileTree} (hfiles : files.Twin held files')
    {source source' : Source} (h : source.Twin source') :
    Matches SecretsAlike (source.read files) (source'.read files') := by
  cases h with
  | inline halike => exact .ok halike
  | file path =>
      have hread := hfiles.read hheld path.untilZero
      rw [Source.read_file, Source.read_file]
      generalize files.read path.untilZero = content at hread
      generalize files'.read path.untilZero = content' at hread
      cases hread with
      | error error => exact .error _
      | ok halike => exact .ok halike

/-- **Configurations that are read look alike**, and their secrets have one kind of source. -/
theorem matches_read (hheld : held.Alike) {files files' : FileTree} (hfiles : files.Twin held files')
    {env env' : Environment} (h : env.Twin env') :
    Matches (fun c c' => c.1.Twin c'.1 ∧ c.2.variable = c'.2.variable) (read env files)
      (read env' files') := by
  have hlog : logFile? env = logFile? env' := by
    unfold logFile?
    rw [h.logFile]
  have hminimum : minimum? env = minimum? env' := by
    unfold minimum?
    rw [h.logMinSeverity]
  unfold read
  rw [hlog, hminimum]
  apply (matches_source? h).bind
  intro source source' hsource
  apply (Matches.refl (fun _ => rfl) (minimum? env')).bind
  rintro minimum _ rfl
  apply (matches_readSource hheld hfiles hsource).bind
  intro secret secret' hsecret
  refine .ok ⟨⟨hsecret, rfl, rfl⟩, ?_⟩
  cases hsource <;> rfl

/-- **Loading goes the same way for secrets that look alike.** -/
theorem parallel_load (hheld : held.Alike) {env env' : Environment} (h : env.Twin env') :
    Parallel (System.Twin held) Twin (load env) (load env') := by
  apply Parallel.bind Parallel.get
  rintro s _ ⟨hfiles, -, -⟩
  have hread := matches_read hheld hfiles h
  dsimp only
  generalize read env s.files = config at hread
  generalize read env' _ = config' at hread
  cases hread with
  | error cause => exact Parallel.throw cause.failure
  | @ok config config' htwin =>
      obtain ⟨config, source⟩ := config
      obtain ⟨config', source'⟩ := config'
      obtain ⟨htwin, hvariable⟩ := htwin
      have hevent : weakEvent source config.secret.length = weakEvent source' config'.secret.length := by
        unfold weakEvent
        rw [hvariable, htwin.secret.length_eq]
      dsimp only at htwin ⊢
      rw [htwin.secret.isWeak_eq, hevent]
      split
      · exact (Bus.parallel_publish _).bind fun _ _ _ => Parallel.pure htwin
      · exact Parallel.pure htwin

end Config

/-! ## Signing -/

namespace Signer

/-- Signers that look alike. -/
structure Twin (signer signer' : Signer) : Prop where
  secret : Config.SecretsAlike signer.secret signer'.secret
  nonceSource : signer.nonceSource = signer'.nonceSource
  draws : signer.draws = signer'.draws

/-- Texts of one length, as all signatures are. -/
def SameLength (text text' : Bytes) : Prop := text.length = text'.length

/-- **A signer is made ready the same way for secrets that look alike.** -/
theorem parallel_create {secret secret' : Bytes} (h : Config.SecretsAlike secret secret')
    (source : NonceSource) :
    Parallel (System.Twin held) Twin (create secret source) (create secret' source) := by
  have hready : Parallel (System.Twin held) Twin (pure { secret, nonceSource := source })
      (pure { secret := secret', nonceSource := source }) := Parallel.pure ⟨h, rfl, rfl⟩
  unfold create
  rw [h.length_eq]
  apply (Bus.parallel_publish _).bind
  intro _ _ _
  simp only [h.eq_nil_iff]
  split
  · exact (Bus.parallel_publish _).bind fun _ _ _ => hready
  · exact hready

variable {signer signer' : Signer}

/-- **Signatures under secrets that look alike are made at the same time**, and have one length. -/
theorem parallel_signText (h : signer.Twin signer') (text : Bytes) :
    Parallel (System.Twin held) SameLength (signer.signText text) (signer'.signText text) := by
  rintro s _ ⟨hfiles, hlog, hblind⟩
  rw [perform_signText, perform_signText]
  refine ⟨?_, .of_files hfiles hlog hblind⟩
  show Matches SameLength ((s.provider.hmac s.calls signer.secret text).map Signature.ofDigest)
    ((s.provider.hmac s.calls signer'.secret text).map Signature.ofDigest)
  cases htag : s.provider.hmac s.calls signer.secret text with
  | error f =>
      rw [hblind _ _ _ _ _ h.secret.length_eq htag]
      exact .error f
  | ok d =>
      cases htag' : s.provider.hmac s.calls signer'.secret text with
      | error f =>
          -- then the other digest would have failed, too
          have hfault := hblind _ _ _ _ _ h.secret.length_eq.symm htag'
          rw [htag] at hfault
          cases hfault
      | ok d' =>
          apply Matches.ok
          show (Signature.ofDigest d).length = (Signature.ofDigest d').length
          rw [Signature.length_ofDigest, Signature.length_ofDigest]

/-- **Verification goes the same way up to the answer.** -/
theorem parallel_verify (h : signer.Twin signer') (a : Attestation) {candidate candidate' : Bytes}
    (hlength : candidate.length = candidate'.length) :
    Parallel (System.Twin held) (fun _ _ => True) (signer.verify a candidate)
      (signer'.verify a candidate') := by
  unfold verify
  rw [hlength]
  split
  · exact Parallel.pure trivial
  · apply (parallel_signText h a.canonical).attempt.bind
    intro outcome outcome' hmatch
    cases hmatch with
    | ok _ => exact Parallel.pure trivial
    | error f => exact (Bus.parallel_publish _).bind fun _ _ _ => Parallel.pure trivial

theorem parallel_signReceipt (h : signer.Twin signer') (r : Receipt) :
    Parallel (System.Twin held) (fun x y => Matches SameLength x.1 y.1 ∧ x.2.Twin y.2)
      (signer.signReceipt r) (signer'.signReceipt r) := by
  have hnonce : signer.drawNonce.1 = signer'.drawNonce.1 := by
    unfold drawNonce
    rw [h.nonceSource, h.draws]
  have hdrawn : signer.drawNonce.2.Twin signer'.drawNonce.2 := by
    refine ⟨h.secret, h.nonceSource, ?_⟩
    show signer.draws + 1 = signer'.draws + 1
    rw [h.draws]
  have hsign : Parallel (System.Twin held) SameLength
      (do signer.drawNonce.2.signWithNonce r (← Effect.ofExcept signer.drawNonce.1))
      (do signer'.drawNonce.2.signWithNonce r (← Effect.ofExcept signer'.drawNonce.1)) := by
    rw [hnonce]
    apply (Parallel.ofExcept (Matches.refl (fun _ => rfl) _)).bind
    rintro nonce _ rfl
    exact parallel_signText hdrawn _
  exact hsign.attempt.bind fun _ _ hmatch => Parallel.pure ⟨hmatch, hdrawn⟩

end Signer

/-! ## Sessions -/

/-- What a caller asks for. A configuration or a signer is named by its position among those there are. -/
inductive Call
  | load (env : Environment)
  | create (position : Nat) (source : NonceSource)
  | createWith (secret : Bytes) (source : NonceSource)
  | sign (position : Nat) (a : Attestation)
  | signReceipt (position : Nat) (r : Receipt)
  | verify (position : Nat) (a : Attestation) (candidate : Bytes)

/-- What a caller is given; nothing, if what was named is not there. -/
inductive Result
  | config (config : Config)
  | ready
  | signature (text : Bytes)
  | verdict (valid : Bool)
  | nothing

/-- What a caller holds: the configurations that were loaded, and the signers that were made ready. -/
structure Session where
  configs : List Config := []
  signers : List Signer := []

namespace Session

/-- Uses one of the items that a caller holds, if it is there. -/
def select {α : Type} (session : Session) (items : List α) (position : Nat)
    (use : α → Effect (Except Failure Result × Session)) : Effect (Except Failure Result × Session) :=
  match items[position]? with
  | none => return (.ok .nothing, session)
  | some item => use item

/-- Makes a signer ready and keeps it. -/
def ready (session : Session) (secret : Bytes) (source : NonceSource) :
    Effect (Except Failure Result × Session) := do
  let outcome ← attempt (Signer.create secret source)
  return (outcome.map fun _ => .ready,
    { session with signers := session.signers ++ outcome.toOption.toList })

/-- Does what a caller asks for: the result or the failure, and what the caller holds afterwards. -/
def act (session : Session) : Call → Effect (Except Failure Result × Session)
  | .load env => do
    let outcome ← attempt (Config.load env)
    return (outcome.map .config, { session with configs := session.configs ++ outcome.toOption.toList })
  | .create position source =>
    session.select session.configs position fun config => session.ready config.secret source
  | .createWith secret source => session.ready secret source
  | .sign position a =>
    session.select session.signers position fun signer => do
      return ((← attempt (signer.sign a)).map .signature, session)
  | .signReceipt position r =>
    session.select session.signers position fun signer => do
      let (outcome, signer) ← signer.signReceipt r
      return (outcome.map .signature, { session with signers := session.signers.set position signer })
  | .verify position a candidate =>
    session.select session.signers position fun signer => do
      return ((← attempt (signer.verify a candidate)).map .verdict, session)

/-- Does all that a caller asks for, and goes on after failures. -/
def run (session : Session) : List Call → Effect (List (Except Failure Result))
  | [] => return []
  | call :: calls => do
    let (result, session) ← session.act call
    return result :: (← run session calls)

end Session

/-- **Calls that look alike**: what is given as a secret looks alike, and what is given to be verified has one
length; all else is the same. -/
inductive Call.Twin : Call → Call → Prop
  | load {env env' : Environment} (h : env.Twin env') : Twin (.load env) (.load env')
  | create (position : Nat) (source : NonceSource) : Twin (.create position source) (.create position source)
  | createWith {secret secret' : Bytes} (h : Config.SecretsAlike secret secret') (source : NonceSource) :
      Twin (.createWith secret source) (.createWith secret' source)
  | sign (position : Nat) (a : Attestation) : Twin (.sign position a) (.sign position a)
  | signReceipt (position : Nat) (r : Receipt) : Twin (.signReceipt position r) (.signReceipt position r)
  | verify (position : Nat) (a : Attestation) {candidate candidate' : Bytes}
      (h : candidate.length = candidate'.length) :
      Twin (.verify position a candidate) (.verify position a candidate')

/-- **Results that look alike**: they differ in secrets that look alike, in signatures of one length and in
verdicts. -/
inductive Result.Twin : Result → Result → Prop
  | config {config config' : Config} (h : config.Twin config') : Twin (.config config) (.config config')
  | ready : Twin .ready .ready
  | signature {text text' : Bytes} (h : text.length = text'.length) :
      Twin (.signature text) (.signature text')
  | verdict (valid valid' : Bool) : Twin (.verdict valid) (.verdict valid')
  | nothing : Twin .nothing .nothing

namespace Session

/-- Sessions that look alike. -/
structure Twin (session session' : Session) : Prop where
  configs : List.Forall₂ Config.Twin session.configs session'.configs
  signers : List.Forall₂ Signer.Twin session.signers session'.signers

/-- One value may be replaced on both sides. -/
theorem forall₂_set {α β : Type} {R : α → β → Prop} {l : List α} {m : List β} (h : List.Forall₂ R l m)
    {a : α} {b : β} (hab : R a b) (i : Nat) : List.Forall₂ R (l.set i a) (m.set i b) := by
  induction h generalizing i with
  | nil => exact .nil
  | cons hx hrest ih =>
      cases i with
      | zero => exact .cons hab hrest
      | succ i => exact .cons hx (ih i)

/-- What comes of outcomes that match is kept on both sides, or on neither. -/
theorem forall₂_keep {α β : Type} {R : α → β → Prop} {l : List α} {m : List β} (h : List.Forall₂ R l m)
    {x : Except Failure α} {y : Except Failure β} (hmatch : Matches R x y) :
    List.Forall₂ R (l ++ x.toOption.toList) (m ++ y.toOption.toList) := by
  apply List.rel_append h
  cases hmatch with
  | ok hab => exact .cons hab .nil
  | error f => exact .nil

/-- Results of a call that match, and what is held after it. -/
abbrev After (x y : Except Failure Result × Session) : Prop := Matches Result.Twin x.1 y.1 ∧ x.2.Twin y.2

variable {session session' : Session}

/-- Items at one position are there on both sides, or on neither. -/
theorem parallel_select {α : Type} {R : α → α → Prop} (h : session.Twin session') {items items' : List α}
    (hitems : List.Forall₂ R items items') (position : Nat)
    {use use' : α → Effect (Except Failure Result × Session)}
    (huse : ∀ a b, R a b → Parallel (System.Twin held) After (use a) (use' b)) :
    Parallel (System.Twin held) After (session.select items position use)
      (session'.select items' position use') := by
  induction hitems generalizing position with
  | nil => exact Parallel.pure ⟨.ok .nothing, h⟩
  | cons hab _ ih =>
      cases position with
      | zero => exact huse _ _ hab
      | succ position => exact ih position

theorem parallel_ready (h : session.Twin session') {secret secret' : Bytes}
    (hsecret : Config.SecretsAlike secret secret') (source : NonceSource) :
    Parallel (System.Twin held) After (session.ready secret source) (session'.ready secret' source) := by
  apply (Signer.parallel_create hsecret source).attempt.bind
  intro outcome outcome' hmatch
  apply Parallel.pure
  exact ⟨hmatch.map fun _ _ _ => .ready, h.configs, forall₂_keep h.signers hmatch⟩

/-- **One call that looks alike** has results that look alike, and leaves twins behind. -/
theorem parallel_act (hheld : held.Alike) (h : session.Twin session') {call call' : Call}
    (hcall : call.Twin call') :
    Parallel (System.Twin held) After (session.act call) (session'.act call') := by
  cases hcall with
  | load henv =>
      apply (Config.parallel_load hheld henv).attempt.bind
      intro outcome outcome' hmatch
      apply Parallel.pure
      exact ⟨hmatch.map fun _ _ => .config, forall₂_keep h.configs hmatch, h.signers⟩
  | create position source =>
      apply parallel_select h h.configs
      intro config config' hconfig
      exact parallel_ready h hconfig.secret source
  | createWith hsecret source => exact parallel_ready h hsecret source
  | sign position a =>
      apply parallel_select h h.signers
      intro signer signer' hsigner
      apply (Signer.parallel_signText hsigner a.canonical).attempt.bind
      intro outcome outcome' hmatch
      exact Parallel.pure ⟨hmatch.map fun _ _ => .signature, h⟩
  | signReceipt position r =>
      apply parallel_select h h.signers
      intro signer signer' hsigner
      apply (Signer.parallel_signReceipt hsigner r).bind
      rintro ⟨outcome, after⟩ ⟨outcome', after'⟩ ⟨hmatch, hafter⟩
      apply Parallel.pure
      exact ⟨hmatch.map fun _ _ => .signature, h.configs, forall₂_set h.signers hafter position⟩
  | verify position a hlength =>
      apply parallel_select h h.signers
      intro signer signer' hsigner
      apply (Signer.parallel_verify hsigner a hlength).attempt.bind
      intro outcome outcome' hmatch
      exact Parallel.pure ⟨hmatch.map fun _ _ _ => .verdict _ _, h⟩

/-- **Calls one after the other** have results that look alike, as long as each of them does. -/
theorem parallel_run (hheld : held.Alike) (h : session.Twin session') {calls calls' : List Call}
    (hcalls : List.Forall₂ Call.Twin calls calls') :
    Parallel (System.Twin held) (List.Forall₂ (Matches Result.Twin)) (session.run calls)
      (session'.run calls') := by
  -- what a caller holds changes from call to call, and stays alike
  induction hcalls generalizing session session' with
  | nil => exact Parallel.pure .nil
  | cons hcall _ ih =>
      apply (parallel_act hheld h hcall).bind
      rintro ⟨result, after⟩ ⟨result', after'⟩ ⟨hresult, hafter⟩
      apply (ih hafter).bind
      intro results results' hresults
      exact Parallel.pure (.cons hresult hresults)

/-- A call comes to a result or a failure, and never breaks a session off. -/
theorem exists_act (session : Session) (call : Call) (s : System) :
    ∃ r, ((session.act call).perform s).1 = .ok r := by
  have hselect : ∀ {α : Type} (items : List α) (position : Nat)
      (use : α → Effect (Except Failure Result × Session)),
      (∀ item, ∃ r, ((use item).perform s).1 = .ok r) →
        ∃ r, ((session.select items position use).perform s).1 = .ok r := by
    intro α items position use huse
    unfold select
    cases items[position]? with
    | none => exact ⟨_, rfl⟩
    | some item => exact huse item
  cases call with
  | load env => exact ⟨_, rfl⟩
  | create position source => exact hselect _ position _ fun _ => ⟨_, rfl⟩
  | createWith secret source => exact ⟨_, rfl⟩
  | sign position a => exact hselect _ position _ fun _ => ⟨_, rfl⟩
  | signReceipt position r =>
      apply hselect
      intro signer
      rw [perform_bind, Signer.perform_signReceipt]
      cases signer.drawNonce.1 <;> exact ⟨_, rfl⟩
  | verify position a candidate => exact hselect _ position _ fun _ => ⟨_, rfl⟩

theorem exists_run (session : Session) (calls : List Call) (s : System) :
    ∃ results, ((session.run calls).perform s).1 = .ok results := by
  induction calls generalizing session s with
  | nil => exact ⟨[], rfl⟩
  | cons call calls ih =>
      obtain ⟨⟨result, after⟩, hact⟩ := session.exists_act call s
      obtain ⟨results, hrun⟩ := ih after ((session.act call).perform s).2
      rw [run, perform_bind_of_ok hact]
      dsimp only
      rw [perform_bind_of_ok hrun]
      exact ⟨result :: results, rfl⟩

end Session

/-- **Two systems show the same**: the events that listeners noted, the console, all streams, all files but
those that hold secrets, and in these the text behind the secrets. -/
structure System.ShowsSame (held : SecretFiles) (t t' : System) : Prop where
  delivered : t.delivered = t'.delivered
  console : t.console = t'.console
  streams : t.streams = t'.streams
  files : ∀ place, held place = none → t.files.node? place = t'.files.node? place
  secretFiles : ∀ place c c', held place = some (c, c') →
    ∃ text, t.files.node? place = some (.file (c ++ text))
      ∧ t'.files.node? place = some (.file (c' ++ text))

theorem System.Twin.showsSame {t t' : System} (h : t.Twin held t') : t.ShowsSame held t' := by
  obtain ⟨hfiles, -, -⟩ := h
  refine ⟨rfl, rfl, rfl, hfiles.same, ?_⟩
  intro place c c' hplace
  obtain ⟨text, -, -, hnode, hnode'⟩ := hfiles.secret place c c' hplace
  exact ⟨text, hnode, hnode'⟩

/-- **The secret is kept.** Two runs of the same calls, each with its own secrets, which look alike, go the same
way: the events, all that is written and all failures are the same, call by call. What a caller is given
differs in the loaded secret, in signatures and in verdicts at most. -/
theorem Session.keeps_secrets (hheld : held.Alike) {s s' : System} (hs : s.Twin held s')
    {calls calls' : List Call} (hcalls : List.Forall₂ Call.Twin calls calls') :
    ∃ results results', ((Session.run {} calls).perform s).1 = .ok results
      ∧ ((Session.run {} calls').perform s').1 = .ok results'
      ∧ List.Forall₂ (Matches Result.Twin) results results'
      ∧ ((Session.run {} calls).perform s).2.ShowsSame held ((Session.run {} calls').perform s').2 := by
  have hempty : Session.Twin {} {} := ⟨.nil, .nil⟩
  obtain ⟨hmatch, hafter⟩ := parallel_run hheld hempty hcalls hs
  obtain ⟨results, hresults⟩ := exists_run {} calls s
  obtain ⟨results', hresults'⟩ := exists_run {} calls' s'
  rw [hresults, hresults'] at hmatch
  refine ⟨results, results', hresults, hresults', ?_, hafter.showsSame⟩
  cases hmatch with
  | ok h => exact h

/-- The place of a file in the working directory. -/
def keyPlace : Place := FileTree.empty.home ++ [Bytes.ascii "key"]

/-- Files with a secret. -/
def keyFiles (secret : String) : FileTree := FileTree.empty.put keyPlace (.file (Bytes.ascii secret))

/-- A system with a listener on the bus. Its keyed digest is the first byte of the key, over and over. -/
def listening : System where
  provider := {
    hmac := fun _ key _ => .ok (FixedBytes.replicate 32 (key.headD 0))
    sha256 := fun _ _ => .ok (FixedBytes.zero 32) }
  subscribers := [.recorder (Bytes.ascii "listener"), .logger]

theorem node?_keyFiles (secret : String) (place : Place) :
    (keyFiles secret).node? place
      = if place = keyPlace then some (.file (Bytes.ascii secret)) else FileTree.empty.node? place :=
  FileTree.node?_put (by decide) _ place

/-- Neither the listener nor the console tells two secrets in a file apart. -/
theorem Session.keeps_secrets_in_file :
    let calls : List Call := [
      .load { secretFile := some (Bytes.ascii "key") },
      .create 0 fun _ nonce => .ok nonce,
      .sign 0 (Signer.eventAtEpoch "event" "10.0.0.1" "1")]
    let ran (secret : String) := (Session.run {} calls).perform { listening with files := keyFiles secret }
    (ran "hunter2").2.delivered = (ran "letmein").2.delivered
      ∧ (ran "hunter2").2.console = (ran "letmein").2.console := by
  intro calls ran
  let held : SecretFiles := fun place =>
    if place = keyPlace then some (Bytes.ascii "hunter2", Bytes.ascii "letmein") else none
  have hheld : held.Alike := by
    intro place c c' hplace
    obtain ⟨rfl, h⟩ := Option.ite_none_right_eq_some.mp hplace
    cases h
    exact ⟨by decide, by decide⟩
  have hfiles : (keyFiles "hunter2").Twin held (keyFiles "letmein") := by
    have hhome : ∀ secret, (keyFiles secret).home = FileTree.empty.home := fun _ => rfl
    refine ⟨?_, ?_, ?_⟩
    · rw [hhome, hhome]
    · intro place hplace
      have hother : place ≠ keyPlace := by
        rintro rfl
        cases hplace
      rw [node?_keyFiles, node?_keyFiles, if_neg hother, if_neg hother]
    · intro place c c' hplace
      obtain ⟨rfl, h⟩ := Option.ite_none_right_eq_some.mp hplace
      cases h
      refine ⟨[], .inl rfl, fun h => absurd rfl h, ?_, ?_⟩
      · rw [node?_keyFiles, if_pos rfl, List.append_nil]
      · rw [node?_keyFiles, if_pos rfl, List.append_nil]
  have htwin : System.Twin held { listening with files := keyFiles "hunter2" }
      { listening with files := keyFiles "letmein" } := by
    refine .of_files hfiles ?_ ?_
    · intro place c c' hsink
      cases hsink
    · intro call key key' message f _ hfault
      cases hfault
  have hcalls : List.Forall₂ Call.Twin calls calls := by
    have henv : Environment.Twin { secretFile := some (Bytes.ascii "key") }
        { secretFile := some (Bytes.ascii "key") } := ⟨.none, rfl, rfl, rfl⟩
    exact .cons (.load henv) (.cons (.create 0 _) (.cons (.sign 0 _) .nil))
  obtain ⟨_, _, -, -, -, hshown⟩ := keeps_secrets hheld htwin hcalls
  exact ⟨hshown.delivered, hshown.console⟩

end SignedAudit
