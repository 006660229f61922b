import Mathlib.Data.List.Forall2
import SignedAudit.Proofs.Reporting

namespace SignedAudit

/-! # What a log does not tell

A redacted field is shown as one fixed text, whether it was declared so or its key speaks of a secret; and a
hashed field is shown through its digest, or as nothing if it is empty. So two events that differ in no
more than that are written alike: a log puts the same line together, or breaks off at the same place, asks
the provider the same questions, and meets the same failure. The event that stands for one that is too long
is made of the identifier alone, and the report of a loss of the failure alone. -/

open Consultation Effect

namespace Bytes

theorem occursIn_iff_infix (needle text : Bytes) : occursIn needle text = true ↔ needle <:+: text := by
  induction text with
  | nil => rw [occursIn, List.isEmpty_iff, List.infix_nil]
  | cons b rest ih =>
      rw [occursIn, Bool.or_eq_true, List.isPrefixOf_iff_prefix, ih, List.infix_cons_iff]

end Bytes

/-! ## Fields that look alike -/

namespace Field

/-- **The key speaks of a secret**: a part of it is one of two words, in any case of ASCII letters. -/
def SpeaksOfSecret (f : Field) : Prop :=
  ∃ part : Bytes, part <:+: f.key ∧ (part.lower = Bytes.ascii "secret" ∨ part.lower = Bytes.ascii "password")

theorem namesSecret_iff (f : Field) : f.namesSecret = true ↔ f.SpeaksOfSecret := by
  unfold namesSecret SpeaksOfSecret
  simp only [Bool.or_eq_true, Bytes.occursIn_iff_infix, Bytes.lower, List.infix_map_iff]
  constructor
  · rintro (⟨part, hpart, hword⟩ | ⟨part, hpart, hword⟩)
    · exact ⟨part, hpart, .inl hword.symm⟩
    · exact ⟨part, hpart, .inr hword.symm⟩
  · rintro ⟨part, hpart, hword | hword⟩
    · exact .inl ⟨part, hpart, hword.symm⟩
    · exact .inr ⟨part, hpart, hword.symm⟩

/-- **Fields that look alike**: of a redacted field the value may be another one, and whether it is numeric; of
a field whose key speaks of a secret also how much was meant to be shown; and of a hashed field the value
may be any other one with the same digests that is empty if it is. -/
inductive LooksLike (p : Provider) (f : Field) : Field → Prop
  | same : LooksLike p f f
  | redacted (h : f.privacy = .redacted) (value : Bytes) (numeric : Bool) :
      LooksLike p f { f with value, numeric }
  | secret (h : f.SpeaksOfSecret) (value : Bytes) (numeric : Bool) (privacy : Privacy) :
      LooksLike p f { f with value, numeric, privacy }
  | hashed (h : f.privacy = .hashed) (value : Bytes) (numeric : Bool) (hempty : f.value = [] ↔ value = [])
      (hdigest : ∀ call, p.sha256 call f.value = p.sha256 call value) :
      LooksLike p f { f with value, numeric }

end Field

namespace Event

/-- A redacted field is shown as a fixed text. -/
theorem Shown.ofField_of_redacted {f : Field} (h : f.disclosure = .redacted) :
    Shown.ofField f = .text (Bytes.ascii "[REDACTED]") := by
  rw [Shown.ofField, h]

theorem disclosure_of_speaksOfSecret {f : Field} (h : f.SpeaksOfSecret) : f.disclosure = .redacted := by
  rw [Field.disclosure, if_pos (f.namesSecret_iff.mpr h)]

/-- Values with the same digests have the same fingerprint if both are empty or neither is. -/
theorem fingerprint_congr {p : Provider} {value value' : Bytes} (hempty : value = [] ↔ value' = [])
    (hdigest : ∀ call, p.sha256 call value = p.sha256 call value') :
    p.fingerprint value = p.fingerprint value' := by
  have hask : p.askSha256 value = p.askSha256 value' := by
    funext call
    show (p.sha256 call value, call + 1) = (p.sha256 call value', call + 1)
    rw [hdigest]
  unfold Provider.fingerprint
  rw [hask]
  simp only [hempty]

/-- **Fields that look alike are shown alike.** -/
theorem render_ofField_of_looksLike {p : Provider} {f g : Field} (h : f.LooksLike p g) :
    (Shown.ofField f).render p = (Shown.ofField g).render p := by
  cases h with
  | same => rfl
  | redacted h value numeric =>
      have hshown : ∀ g : Field, g.privacy = .redacted → g.disclosure = .redacted := by
        intro g hg
        rw [Field.disclosure, hg, ite_self]
      rw [Shown.ofField_of_redacted (hshown f h),
        Shown.ofField_of_redacted (hshown { f with value, numeric } h)]
  | secret h value numeric privacy =>
      have hother : Field.SpeaksOfSecret { f with value, numeric, privacy } := h
      rw [Shown.ofField_of_redacted (disclosure_of_speaksOfSecret h),
        Shown.ofField_of_redacted (disclosure_of_speaksOfSecret hother)]
  | hashed h value numeric hempty hdigest =>
      by_cases hsecret : f.SpeaksOfSecret
      · -- the key overrules the field, so that there is no digest at all
        have hother : Field.SpeaksOfSecret { f with value, numeric } := hsecret
        rw [Shown.ofField_of_redacted (disclosure_of_speaksOfSecret hsecret),
          Shown.ofField_of_redacted (disclosure_of_speaksOfSecret hother)]
      · have hshown : ∀ g : Field, ¬ g.SpeaksOfSecret → g.privacy = .hashed →
            Shown.ofField g = .fingerprint g.value := by
          intro g hopen hg
          rw [← g.namesSecret_iff] at hopen
          rw [Shown.ofField, Field.disclosure, if_neg hopen, hg]
        have hother : ¬ Field.SpeaksOfSecret { f with value, numeric } := hsecret
        rw [hshown f hsecret h, hshown { f with value, numeric } hother h, Shown.render, Shown.render,
          fingerprint_congr hempty hdigest]

/-! ## Events that look alike -/

/-- **Events that look alike**: nothing but their fields differs, and these look alike. -/
structure LooksLike (p : Provider) (e e' : Event) : Prop where
  category : e.category = e'.category
  severity : e.severity = e'.severity
  id : e.id = e'.id
  message : e.message = e'.message
  fields : List.Forall₂ (Field.LooksLike p) e.fields e'.fields

/-- Members with the same names that are shown alike. -/
def ShownAlike (p : Provider) : List (Bytes × Shown) → List (Bytes × Shown) → Prop :=
  List.Forall₂ fun m m' => m.1 = m'.1 ∧ m.2.render p = m'.2.render p

/-- Members that are shown alike are put together alike, into whatever room there is. -/
theorem assemble_congr {p : Provider} {members members' : List (Bytes × Shown)}
    (h : ShownAlike p members members') (room : Nat) (opening : UInt8) :
    assemble p room opening members = assemble p room opening members' := by
  -- values that are rendered alike take the same room, and so the same is left for the rest
  induction h generalizing room opening with
  | nil => rfl
  | @cons m m' rest rest' hm _ ih =>
      obtain ⟨name, shown⟩ := m
      obtain ⟨name', shown'⟩ := m'
      obtain ⟨hname, hrender⟩ := hm
      simp only at hname hrender
      subst hname
      rw [assemble, assemble, hrender]
      simp only [ih]

theorem shownAlike_members {p : Provider} {e e' : Event} (h : e.LooksLike p e') (time : Bytes) :
    ShownAlike p (e.members time) (e'.members time) := by
  unfold members
  rw [h.category, h.severity, h.id, h.message]
  apply List.rel_append
  · apply List.forall₂_same.mpr
    intro m _
    exact ⟨rfl, rfl⟩
  · rw [List.forall₂_map_left_iff, List.forall₂_map_right_iff]
    apply h.fields.imp
    intro f g hfields
    refine ⟨?_, render_ofField_of_looksLike hfields⟩
    cases hfields <;> rfl

variable {p : Provider} {e e' : Event}

/-- **Events that look alike have one line**, at every time and for every limit. -/
theorem line_eq_of_looksLike (h : e.LooksLike p e') (time : Bytes) (limit : Nat) :
    e.line p time limit = e'.line p time limit :=
  assemble_congr (shownAlike_members h time) limit Ascii.openBrace

/-- The event that stands for one that is too long knows its identifier only. -/
theorem oversize_eq_of_id_eq (h : e.id = e'.id) : e.oversize = e'.oversize := by
  unfold oversize
  rw [h]

theorem logLine?_eq_of_looksLike (h : e.LooksLike p e') (time : Bytes) :
    e.logLine? p time = e'.logLine? p time := by
  unfold logLine?
  rw [line_eq_of_looksLike h, oversize_eq_of_id_eq h.id]

end Event

/-! ## The log -/

namespace Logger

/-- **A log does the same with events that look alike**: it ends in the same way and in the same system. -/
theorem perform_log_eq_of_looksLike {s : System} {e e' : Event} (h : e.LooksLike s.provider e')
    (logger : Logger) : (logger.log e).perform s = (logger.log e').perform s := by
  by_cases hrank : e.severity.rank < logger.minimum.rank
  · have hrank' : e'.severity.rank < logger.minimum.rank := by rwa [← h.severity]
    rw [perform_log_of_lt hrank, perform_log_of_lt hrank']
  · have hrank' : ¬ e'.severity.rank < logger.minimum.rank := by rwa [← h.severity]
    rw [perform_log_of_le (Nat.not_lt.mp hrank), perform_log_of_le (Nat.not_lt.mp hrank'),
      Event.logLine?_eq_of_looksLike h]

/-- A log does the same with whole sequences of events that look alike. -/
theorem perform_forM_log_eq_of_looksLike {p : Provider} {events events' : List Event}
    (h : List.Forall₂ (Event.LooksLike p) events events') (logger : Logger) {s : System}
    (hs : s.provider = p) : (events.forM logger.log).perform s = (events'.forM logger.log).perform s := by
  induction h generalizing s with
  | nil => rfl
  | @cons e e' rest rest' he _ ih =>
      rw [← hs] at he
      obtain ⟨hprovider, -, -⟩ := logger.frame_log e' s
      -- both logs go on from the system that the first event leaves behind
      rw [List.forM, List.forM, perform_bind, perform_bind, perform_log_eq_of_looksLike he]
      cases hlog : (logger.log e').perform s with
      | mk outcome t =>
          rw [hlog] at hprovider
          cases outcome with
          | error f => rfl
          | ok _ => exact ih (hprovider.trans hs)

/-- **Redacted values have no part in a log.** Events that look alike have the same line, or none, or the
same failure, at every time and for every limit; and a log that takes one of them, or one after the other,
does the same as if it took the other ones, in any system: what is written and where, what is asked of
the provider, and how it ends. -/
theorem hides_redacted_values (p : Provider) :
    (∀ e e' : Event, e.LooksLike p e' → ∀ time limit, e.line p time limit = e'.line p time limit)
      ∧ (∀ e e' : Event, e.LooksLike p e' → ∀ (logger : Logger) (s : System), s.provider = p →
        (logger.log e).perform s = (logger.log e').perform s)
      ∧ ∀ events events' : List Event, List.Forall₂ (Event.LooksLike p) events events' →
        ∀ (logger : Logger) (s : System), s.provider = p →
          (events.forM logger.log).perform s = (events'.forM logger.log).perform s := by
  refine ⟨?_, ?_, ?_⟩
  · intro e e' h time limit
    exact Event.line_eq_of_looksLike h time limit
  · rintro e e' h logger s rfl
    exact perform_log_eq_of_looksLike h logger
  · intro events events' h logger s hs
    exact perform_forM_log_eq_of_looksLike h logger hs

/-- An event with a value under a key that speaks of a secret, and a hashed user. -/
def loginEvent (token user : String) (privacy : Privacy) : Event where
  id := Bytes.ascii "login"
  fields := [
    { key := Bytes.ascii "Client_SECRET", value := Bytes.ascii token, privacy },
    { key := Bytes.ascii "user", value := Bytes.ascii user, privacy := .hashed }]

/-- The token is not hashed even if it was meant to be, and users with one digest are not told apart. -/
theorem hides_redacted_values_login :
    let s : System := { provider := .constant (FixedBytes.zero 32) }
    (s.logger.log (loginEvent "hunter2" "alice" .plain)).perform s
      = (s.logger.log (loginEvent "correct horse" "bob" .hashed)).perform s := by
  intro s
  obtain ⟨-, hlog, -⟩ := hides_redacted_values s.provider
  have hlook : (loginEvent "hunter2" "alice" .plain).LooksLike s.provider
      (loginEvent "correct horse" "bob" .hashed) := by
    refine ⟨rfl, rfl, rfl, rfl, ?_⟩
    have hkey : Bytes.ascii "SECRET" <:+: Bytes.ascii "Client_SECRET" :=
      (Bytes.occursIn_iff_infix _ _).mp (by decide)
    have hsecret : Field.SpeaksOfSecret
        { key := Bytes.ascii "Client_SECRET", value := Bytes.ascii "hunter2" } :=
      ⟨Bytes.ascii "SECRET", hkey, .inl (by decide)⟩
    refine .cons (.secret hsecret (Bytes.ascii "correct horse") false .hashed) (.cons ?_ .nil)
    refine .hashed rfl (Bytes.ascii "bob") false (by decide) ?_
    intro call
    rfl
  exact hlog _ _ hlook s.logger s rfl

end Logger

end SignedAudit
