import SignedAudit.Proofs.FileTree
import SignedAudit.Proofs.Opening

namespace SignedAudit

/-! # Two runs side by side

Two systems are twins when they are alike in all but the secrets in their files. An effect runs in parallel
with another one when from twins they come to twins, and to the same failure or to results that are related
as it is said. How effects are built carries this over, so that only reading a file and asking for a keyed
digest have to be looked at. A log may be directed to a file that holds a secret: then the same lines
stand behind both secrets, and are taken for a part of them. -/

open Consultation

/-! ## Matching outcomes -/

/-- Outcomes that match: the same failure, or values in the relation. -/
inductive Matches {ε α β : Type} (R : α → β → Prop) : Except ε α → Except ε β → Prop
  | ok {a : α} {b : β} (h : R a b) : Matches R (.ok a) (.ok b)
  | error (e : ε) : Matches R (.error e) (.error e)

namespace Matches

variable {ε α β γ δ : Type} {R : α → β → Prop} {S : γ → δ → Prop}

theorem refl {R : α → α → Prop} (h : ∀ a, R a a) (x : Except ε α) : Matches R x x := by
  cases x with
  | ok a => exact .ok (h a)
  | error e => exact .error e

theorem map {x : Except ε α} {y : Except ε β} (h : Matches R x y) {f : α → γ} {g : β → δ}
    (hfg : ∀ a b, R a b → S (f a) (g b)) : Matches S (x.map f) (y.map g) := by
  cases h with
  | ok h => exact .ok (hfg _ _ h)
  | error e => exact .error e

theorem bind {x : Except ε α} {y : Except ε β} (h : Matches R x y) {f : α → Except ε γ}
    {g : β → Except ε δ} (hfg : ∀ a b, R a b → Matches S (f a) (g b)) :
    Matches S (x >>= f) (y >>= g) := by
  cases h with
  | ok h => exact hfg _ _ h
  | error e => exact .error e

end Matches

/-! ## Parallel effects -/

namespace Effect

variable {α β γ δ : Type} {I : System → System → Prop} {R : α → β → Prop} {S : γ → δ → Prop}

/-- **Effects that run in parallel**, from related systems to related systems, and to outcomes that match. -/
def Parallel (I : System → System → Prop) (R : α → β → Prop) (x : Effect α) (y : Effect β) : Prop :=
  ∀ ⦃s s' : System⦄, I s s' →
    Matches R (x.perform s).1 (y.perform s').1 ∧ I (x.perform s).2 (y.perform s').2

namespace Parallel

theorem pure {a : α} {b : β} (h : R a b) : Parallel I R (pure a) (pure b) :=
  fun _ _ hs => ⟨.ok h, hs⟩

theorem throw (f : Failure) : Parallel I R (throw f) (throw f) :=
  fun _ _ hs => ⟨.error f, hs⟩

theorem get : Parallel I I get get :=
  fun _ _ hs => ⟨.ok hs, hs⟩

theorem set {t t' : System} (h : I t t') : Parallel I Eq (set t) (set t') :=
  fun _ _ _ => ⟨.ok rfl, h⟩

theorem modify {f g : System → System} (h : ∀ s s', I s s' → I (f s) (g s')) :
    Parallel I Eq (modify f) (modify g) :=
  fun s s' hs => ⟨.ok rfl, h s s' hs⟩

theorem ofExcept {x : Except Failure α} {y : Except Failure β} (h : Matches R x y) :
    Parallel I R (ofExcept x) (ofExcept y) :=
  fun _ _ hs => ⟨h, hs⟩

theorem attempt {x : Effect α} {y : Effect β} (h : Parallel I R x y) :
    Parallel I (Matches R) x.attempt y.attempt :=
  fun _ _ hs => ⟨.ok (h hs).1, (h hs).2⟩

theorem bind {x : Effect α} {y : Effect β} {f : α → Effect γ} {g : β → Effect δ}
    (hxy : Parallel I R x y) (hfg : ∀ a b, R a b → Parallel I S (f a) (g b)) :
    Parallel I S (x >>= f) (y >>= g) := by
  intro s s' hs
  obtain ⟨hmatch, hafter⟩ := hxy hs
  rw [perform_bind, perform_bind]
  rcases hx : x.perform s with ⟨outcome, t⟩
  rcases hy : y.perform s' with ⟨outcome', t'⟩
  rw [hx, hy] at hmatch hafter
  cases hmatch with
  | ok h => exact hfg _ _ h hafter
  | error e => exact ⟨.error e, hafter⟩

/-- Loops over one list run in parallel if their bodies do. -/
theorem forM {l : List α} {f g : α → Effect Unit} (h : ∀ x ∈ l, Parallel I Eq (f x) (g x)) :
    Parallel I Eq (l.forM f) (l.forM g) := by
  induction l with
  | nil => exact pure rfl
  | cons x rest ih =>
      apply bind (h x List.mem_cons_self)
      intro _ _ _
      exact ih fun y hy => h y (List.mem_cons_of_mem x hy)

end Parallel

end Effect

/-! ## Secrets that look alike -/

namespace Config

/-- **Secrets that look alike**: of one length, and both or neither the placeholder. -/
structure SecretsAlike (a b : Bytes) : Prop where
  length_eq : a.length = b.length
  placeholder_iff : a = placeholder ↔ b = placeholder

theorem SecretsAlike.refl (a : Bytes) : SecretsAlike a a := ⟨rfl, Iff.rfl⟩

theorem SecretsAlike.eq_nil_iff {a b : Bytes} (h : SecretsAlike a b) : a = [] ↔ b = [] := by
  rw [← List.length_eq_zero_iff, h.length_eq, List.length_eq_zero_iff]

/-- Both are weak, or neither is. -/
theorem SecretsAlike.isWeak_eq {a b : Bytes} (h : SecretsAlike a b) : isWeak a = isWeak b := by
  unfold isWeak
  rw [Bool.eq_iff_iff]
  simp only [Bool.or_eq_true, beq_iff_eq, h.eq_nil_iff, h.placeholder_iff]

end Config

/-- **Blind to keys**: whether the keyed digest fails, and with what failure, does not depend on the key, at
least among keys of one length. -/
def Provider.KeyBlind (p : Provider) : Prop :=
  ∀ call key key' message f, key.length = key'.length → p.hmac call key message = .error f →
    p.hmac call key' message = .error f

/-! ## Files that hold secrets -/

/-- The files with the secrets of two runs: what each holds at the start of the one and of the other run. -/
abbrev SecretFiles := Place → Option (Bytes × Bytes)

/-- The secrets that are read from the files at the start look alike. -/
def SecretFiles.Alike (held : SecretFiles) : Prop :=
  ∀ place c c', held place = some (c, c') →
    Config.SecretsAlike (Config.dropLineEnd c) (Config.dropLineEnd c')

/-- Text of a log: it is empty, or ends in a brace and a line end. -/
def IsLogText (text : Bytes) : Prop :=
  text = [] ∨ ∃ front, text = front ++ [Ascii.closeBrace, Ascii.newline]

namespace SecretFiles

variable {held : SecretFiles}

/-- The line end of a log is dropped, and nothing before it. -/
theorem dropLineEnd_line (front : Bytes) :
    Config.dropLineEnd (front ++ [Ascii.closeBrace, Ascii.newline]) = front ++ [Ascii.closeBrace] := by
  rw [List.append_cons, Config.dropLineEnd_concat, List.getLast?_concat, if_neg (by decide)]

/-- The placeholder is no text with a line of a log at its end. -/
theorem ne_placeholder (front : Bytes) : front ++ [Ascii.closeBrace] ≠ Config.placeholder := by
  intro h
  have hlast := congrArg List.getLast? h
  rw [List.getLast?_concat] at hlast
  exact absurd hlast (by decide)

/-- Secrets look alike, also with the same lines of a log behind them. -/
theorem Alike.dropLineEnd_append (hheld : held.Alike) {place : Place} {c c' text : Bytes}
    (hplace : held place = some (c, c')) (hlog : IsLogText text) (heq : text ≠ [] → c.length = c'.length) :
    Config.SecretsAlike (Config.dropLineEnd (c ++ text)) (Config.dropLineEnd (c' ++ text)) := by
  obtain rfl | ⟨front, rfl⟩ := hlog
  · rw [List.append_nil, List.append_nil]
    exact hheld place c c' hplace
  · have hlength := heq (List.append_ne_nil_of_right_ne_nil front (List.cons_ne_nil _ _))
    rw [← List.append_assoc, ← List.append_assoc, dropLineEnd_line, dropLineEnd_line]
    refine ⟨?_, iff_of_false (ne_placeholder _) (ne_placeholder _)⟩
    simp only [List.length_append, hlength]

end SecretFiles

namespace FileTree

/-- **Twins among file trees**: at each place they hold the same, or else the two contents of a secret file
and behind them the same text of a log. -/
structure Twin (held : SecretFiles) (t t' : FileTree) : Prop where
  home : t.home = t'.home
  same : ∀ place, held place = none → t.node? place = t'.node? place
  secret : ∀ place c c', held place = some (c, c') →
    ∃ text, IsLogText text ∧ (text ≠ [] → c.length = c'.length)
      ∧ t.node? place = some (.file (c ++ text)) ∧ t'.node? place = some (.file (c' ++ text))

namespace Twin

variable {held : SecretFiles} {t t' : FileTree}

/-- A line of a log may be appended to both, to a secret if it is as long as the other one. -/
theorem append (h : t.Twin held t') {place : Place}
    (hlength : ∀ c c', held place = some (c, c') → c.length = c'.length) (front : Bytes) :
    (t.append place (front ++ [Ascii.closeBrace, Ascii.newline])).Twin held
      (t'.append place (front ++ [Ascii.closeBrace, Ascii.newline])) := by
  refine ⟨?_, ?_, ?_⟩
  · rw [home_append, home_append, h.home]
  · intro q hq
    rw [node?_append, node?_append, h.same q hq]
  · intro q c c' hq
    obtain ⟨text, hlog, heq, hnode, hnode'⟩ := h.secret q c c' hq
    rw [node?_append, node?_append, hnode, hnode']
    by_cases hself : q = place
    · -- the line goes behind what the log has left there before
      subst hself
      refine ⟨text ++ (front ++ [Ascii.closeBrace, Ascii.newline]), ?_, fun _ => hlength c c' hq, ?_, ?_⟩
      · exact .inr ⟨text ++ front, (List.append_assoc _ _ _).symm⟩
      · rw [if_pos rfl, ← List.append_assoc]
        rfl
      · rw [if_pos rfl, ← List.append_assoc]
        rfl
    · rw [if_neg hself, if_neg hself]
      exact ⟨text, hlog, heq, rfl, rfl⟩

/-- What is looked up is found at the same place. -/
theorem step_eq (h : t.Twin held t') : t.step = t'.step := by
  funext place name
  unfold step
  cases hplace : held place with
  | none => rw [h.same place hplace]
  | some contents =>
      obtain ⟨text, -, -, hnode, hnode'⟩ := h.secret place contents.1 contents.2 hplace
      rw [hnode, hnode']

theorem walk_eq (h : t.Twin held t') (path : Bytes) (names : List Bytes) :
    t.walk path names = t'.walk path names := by
  unfold walk
  rw [h.step_eq, h.home]

/-- **Secrets that are read look alike**, also with lines of a log behind them. -/
theorem read (h : t.Twin held t') (hheld : held.Alike) (path : Bytes) :
    Matches (fun c c' => Config.SecretsAlike (Config.dropLineEnd c) (Config.dropLineEnd c'))
      (t.read path) (t'.read path) := by
  unfold FileTree.read
  rw [h.walk_eq]
  cases t'.walk path (names path) with
  | error error => exact .error error
  | ok place =>
      dsimp only [bind, Except.bind]
      cases hplace : held place with
      | none =>
          rw [h.same place hplace]
          exact Matches.refl (fun c => .refl (Config.dropLineEnd c)) _
      | some contents =>
          obtain ⟨text, hlog, heq, hnode, hnode'⟩ := h.secret place contents.1 contents.2 hplace
          rw [hnode, hnode']
          dsimp only
          split
          · exact Matches.error PathError.notDirectory
          · exact .ok (hheld.dropLineEnd_append hplace hlog heq)

end Twin

end FileTree

/-! ## Twin systems -/

/-- **Twin systems**: they differ in their files at most, and these are twins. If the log of the two goes to
a file with a secret, both secrets are of one length there; and the provider is blind to keys. -/
inductive System.Twin (held : SecretFiles) (s : System) : System → Prop
  | of_files {files : FileTree} (hfiles : s.files.Twin held files)
      (hlog : ∀ place c c', s.logger.sink = .file place → held place = some (c, c') → c.length = c'.length)
      (hblind : s.provider.KeyBlind) : Twin held s { s with files }

namespace System.Twin

variable {held : SecretFiles} {s s' : System}

/-- A line may be written to the sink of the log, and any text to the console. -/
theorem write (h : s.Twin held s') {sink : Sink} {text : Bytes}
    (hsink : sink = .console
      ∨ sink = s.logger.sink ∧ ∃ front, text = front ++ [Ascii.closeBrace, Ascii.newline]) :
    (s.write sink text).Twin held (s'.write sink text) := by
  obtain ⟨hfiles, hlog, hblind⟩ := h
  cases sink with
  | console => exact .of_files hfiles hlog hblind
  | stream name => exact .of_files hfiles hlog hblind
  | file place =>
      obtain hconsole | ⟨hdefault, front, rfl⟩ := hsink
      · cases hconsole
      · exact .of_files (hfiles.append (fun c c' => hlog place c c' hdefault.symm) front) hlog hblind

end System.Twin

open Effect

variable {held : SecretFiles}

theorem parallel_write_console (text : Bytes) :
    Parallel (System.Twin held) Eq (write .console text) (write .console text) :=
  Parallel.modify fun _ _ h => h.write (.inl rfl)

namespace Bus

/-- **The default log does the same with an event on both sides.** -/
theorem parallel_log (e : Event) :
    Parallel (System.Twin held) Eq (do (← get).logger.log e) (do (← get).logger.log e) := by
  rintro s _ (@⟨files, hfiles, hlog, hblind⟩)
  have hasked : ∀ calls, System.Twin held { s with calls } { s with calls, files } :=
    fun calls => .of_files hfiles hlog hblind
  simp only [perform_bind, perform_get]
  by_cases hrank : e.severity.rank < s.logger.minimum.rank
  · rw [Logger.perform_log_of_lt hrank, Logger.perform_log_of_lt hrank]
    exact ⟨.ok rfl, hasked s.calls⟩
  · -- the line is made of what is the same on both sides
    rw [Logger.perform_log_of_le (Nat.not_lt.mp hrank), Logger.perform_log_of_le (Nat.not_lt.mp hrank)]
    dsimp only
    cases hline : answer (e.logLine? s.provider s.now.logText) s.calls with
    | mk outcome calls =>
        rcases outcome with (fault | message) | _ | line
        · exact ⟨.ok rfl, (hasked calls).write (.inl rfl)⟩
        · exact ⟨.error _, hasked calls⟩
        · exact ⟨.ok rfl, hasked calls⟩
        · obtain ⟨front, rfl⟩ := Event.exists_of_answer_logLine_some (congrArg Prod.fst hline)
          refine ⟨.ok rfl, (hasked calls).write (.inr ⟨rfl, front, ?_⟩)⟩
          rw [List.append_assoc]
          rfl

/-- Every subscriber does the same with an event on both sides, if publications do. -/
theorem parallel_notify {publish : Event → Effect Unit}
    (hpublish : ∀ e, Parallel (System.Twin held) Eq (publish e) (publish e)) (e : Event) (x : Subscriber) :
    Parallel (System.Twin held) Eq (notify publish e x) (notify publish e x) := by
  have hnote : ∀ name, Parallel (System.Twin held) Eq (note name e) (note name e) := by
    intro name
    apply Parallel.modify
    rintro s s' ⟨hfiles, hlog, hblind⟩
    exact .of_files hfiles hlog hblind
  cases x with
  | logger => exact parallel_log e
  | idle => exact Parallel.pure rfl
  | recorder name => exact hnote name
  | republisher name eventId => exact (hnote name).bind fun _ _ _ => hpublish _
  | failing name failure => exact (hnote name).bind fun _ _ _ => Parallel.throw failure
  | recruiter name newcomer =>
      apply (hnote name).bind
      intro _ _ _
      apply Parallel.modify
      rintro s s' ⟨hfiles, hlog, hblind⟩
      exact .of_files hfiles hlog hblind

/-- Publications run in parallel, however deep they may be inside one another. -/
theorem parallel_publishAt (depth : Nat) (e : Event) :
    Parallel (System.Twin held) Eq (publishAt depth e) (publishAt depth e) := by
  induction depth generalizing e with
  | zero => exact parallel_write_console reentrancyNote
  | succ depth ih =>
      apply Parallel.bind Parallel.get
      rintro s s' ⟨hfiles, hlog, hblind⟩
      dsimp only
      -- twins are both publishing or both not
      split
      · exact parallel_write_console reentrancyNote
      · apply Parallel.bind (Parallel.set (.of_files hfiles hlog hblind))
        intro _ _ _
        apply Parallel.bind (Parallel.attempt (Parallel.forM fun x _ => parallel_notify ih e x))
        intro outcome outcome' hmatch
        apply Parallel.bind
        · apply Parallel.modify
          rintro t t' ⟨hfiles, hlog, hblind⟩
          exact .of_files hfiles hlog hblind
        · intro _ _ _
          exact Parallel.ofExcept hmatch

/-- **A publication does the same on both sides**, whoever has subscribed. -/
theorem parallel_publish (e : Event) : Parallel (System.Twin held) Eq (publish e) (publish e) :=
  parallel_publishAt 1 e

end Bus

end SignedAudit
