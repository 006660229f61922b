import Mathlib.Data.List.Forall2
import SignedAudit.Proofs.JsonReading
import SignedAudit.Proofs.Redaction
import SignedAudit.Proofs.Rendering

namespace SignedAudit

/-! # What a log line says

Whoever reads a line of a log as JSON finds one object, with the members of the event in their order and
nothing else: the heading, and one member for each field, under its key. Texts are read back as they are,
whatever bytes they hold, so that no text can end its own string, bring in a member or hide one. Numerals are
written without quotes, and so it is up to whoever reports an event that they are numerals. -/

open Consultation

/-! ## Fields and how they are read -/

namespace Field

/-- Is the value shown without quotes? It is numeric and public, and the key does not speak of a secret. -/
structure ShowsNumeral (f : Field) : Prop where
  numeric : f.numeric = true
  plain : f.privacy = .plain
  unveiled : ¬ f.SpeaksOfSecret

/-- **How the value of a field is read**: as its integer or its text if it is public, as a fixed text if it is
redacted or the key speaks of a secret, and otherwise as its digest. -/
inductive ReadsAs (digest : Bytes → Digest) (f : Field) : Json.Value → Prop
  | secret (h : f.SpeaksOfSecret) : ReadsAs digest f (.text (Bytes.ascii "[REDACTED]"))
  | redacted (h : f.privacy = .redacted) : ReadsAs digest f (.text (Bytes.ascii "[REDACTED]"))
  | hashed (hunveiled : ¬ f.SpeaksOfSecret) (h : f.privacy = .hashed) :
      ReadsAs digest f (.text (Bytes.ascii "hash:" ++ Bytes.fingerprint digest f.value))
  | text (hunveiled : ¬ f.SpeaksOfSecret) (h : f.privacy = .plain) (htext : f.numeric = false) :
      ReadsAs digest f (.text f.value)
  | integer (h : f.ShowsNumeral) (n : Int) (hvalue : f.value = Decimal.ofInt n) :
      ReadsAs digest f (.integer n)

/-- The member of a line that shows a field. -/
structure IsMember (digest : Bytes → Digest) (f : Field) (m : Bytes × Json.Value) : Prop where
  key : m.1 = f.key
  value : f.ReadsAs digest m.2

end Field

namespace Event

variable {digest : Bytes → Digest}

/-- What the shown value of a field is read as. -/
def Shown.value (digest : Bytes → Digest) : Shown → Json.Value
  | .text t => .text t
  | .numeral t => .integer ((Decimal.int? t).getD 0)
  | .fingerprint value => .text (Bytes.ascii "hash:" ++ Bytes.fingerprint digest value)

theorem ofField_eq_numeral_iff (f : Field) (t : Bytes) :
    Shown.ofField f = .numeral t ↔ f.ShowsNumeral ∧ t = f.value := by
  have hsecret := f.namesSecret_iff
  constructor
  · intro h
    unfold Shown.ofField Field.disclosure at h
    by_cases hname : f.namesSecret = true
    · simp [hname] at h
    · cases hprivacy : f.privacy <;> simp [hname, hprivacy] at h
      cases hnumeric : f.numeric <;> simp [hnumeric] at h
      exact ⟨⟨hnumeric, hprivacy, fun hspeaks => hname (hsecret.mpr hspeaks)⟩, h.symm⟩
  · rintro ⟨⟨hnumeric, hprivacy, hunveiled⟩, rfl⟩
    rw [← hsecret] at hunveiled
    simp [Shown.ofField, Field.disclosure, hunveiled, hprivacy, hnumeric]

/-- **Each field is read in one way**, numerals being numerals. -/
theorem readsAs_iff {f : Field} (hnumeral : f.ShowsNumeral → ∃ n : Int, f.value = Decimal.ofInt n)
    (v : Json.Value) : f.ReadsAs digest v ↔ v = (Shown.ofField f).value digest := by
  have hshown : ∀ w, f.ReadsAs digest w → w = (Shown.ofField f).value digest := by
    intro w hw
    cases hw with
    | secret h => rw [Shown.ofField_of_redacted (disclosure_of_speaksOfSecret h)]; rfl
    | redacted h =>
        have hredacted : f.disclosure = .redacted := by rw [Field.disclosure, h, ite_self]
        rw [Shown.ofField_of_redacted hredacted]
        rfl
    | hashed hunveiled h =>
        rw [← f.namesSecret_iff] at hunveiled
        simp [Shown.ofField, Field.disclosure, hunveiled, h, Shown.value]
    | text hunveiled h htext =>
        rw [← f.namesSecret_iff] at hunveiled
        simp [Shown.ofField, Field.disclosure, hunveiled, h, htext, Shown.value]
    | integer h n hvalue =>
        rw [(ofField_eq_numeral_iff f f.value).mpr ⟨h, rfl⟩, Shown.value, hvalue, Decimal.int?_ofInt]
        rfl
  have hreading : ∃ w, f.ReadsAs digest w := by
    by_cases hspeaks : f.SpeaksOfSecret
    · exact ⟨_, .secret hspeaks⟩
    · cases hprivacy : f.privacy with
      | redacted => exact ⟨_, .redacted hprivacy⟩
      | hashed => exact ⟨_, .hashed hspeaks hprivacy⟩
      | plain =>
          cases hnumeric : f.numeric with
          | false => exact ⟨_, .text hspeaks hprivacy hnumeric⟩
          | true =>
              have hshows : f.ShowsNumeral := ⟨hnumeric, hprivacy, hspeaks⟩
              obtain ⟨n, hn⟩ := hnumeral hshows
              exact ⟨_, .integer hshows n hn⟩
  constructor
  · exact hshown v
  · rintro rfl
    obtain ⟨w, hw⟩ := hreading
    rwa [hshown w hw] at hw

/-! ## The bytes of a line -/

/-- What holds of all bytes but the control bytes, and of those of numerals, holds of a whole line. -/
theorem forall_mem_rendering {P : UInt8 → Prop} (hprintable : ∀ b, Ascii.space ≤ b → P b) {e : Event}
    (hnumerals : ∀ f ∈ e.fields, f.ShowsNumeral → ∀ b ∈ f.value, P b) (time : Bytes) :
    ∀ b ∈ e.rendering digest time, P b := by
  have hquoted : ∀ t, ∀ b ∈ Json.quoted t, P b := fun t b hb => hprintable b (Json.isPrintable_quoted t b hb)
  have hwritten : ∀ m ∈ e.members time, ∀ b ∈ m.2.written digest, P b := by
    intro m hm
    cases hshown : m.2 with
    | text t => exact hquoted t
    | fingerprint value => exact hquoted _
    | numeral t =>
        rcases exists_of_mem_members hm with ⟨u, hu⟩ | ⟨f, hf, rfl⟩
        · rw [hu] at hshown
          cases hshown
        · obtain ⟨hshows, rfl⟩ := (ofField_eq_numeral_iff f t).mp hshown
          exact hnumerals f hf hshows
  apply Json.forall_mem_object (hprintable _ (by decide)) (hprintable _ (by decide))
    (hprintable _ (by decide))
  intro written hmem
  obtain ⟨m, hm, rfl⟩ := List.mem_map.mp hmem
  rw [writeMember, Json.member, List.forall_mem_append, List.forall_mem_cons]
  exact ⟨hquoted m.1, hprintable _ (by decide), hwritten m hm⟩

/-! ## Lines and how they are read -/

/-- The members in front of the fields, as they are read. -/
def heading (e : Event) (time : Bytes) : List (Bytes × Json.Value) :=
  [(Bytes.ascii "ts", .text time),
    (Bytes.ascii "severity", .text e.severity.name),
    (Bytes.ascii "category", .text e.category.name)]
  ++ (if e.id = [] then [] else [(Bytes.ascii "event_id", .text e.id)])
  ++ (if e.message = [] then [] else [(Bytes.ascii "message", .text e.message)])

/-- **Numeric values are numerals**: what is shown without quotes is the numeral of an integer. -/
def HasNumerals (e : Event) : Prop :=
  ∀ f ∈ e.fields, f.ShowsNumeral → ∃ n : Int, f.value = Decimal.ofInt n

theorem isPrintable_rendering {e : Event} (h : e.HasNumerals) (time : Bytes) :
    Json.IsPrintable (e.rendering digest time) := by
  apply forall_mem_rendering (fun _ hb => hb)
  intro f hf hshows
  obtain ⟨n, hn⟩ := h f hf hshows
  rw [hn]
  exact Json.isPrintable_ofInt n

/-- Every member is a writing of what it is read as. -/
theorem writes_written (digest : Bytes → Digest) {e : Event} (h : e.HasNumerals) {time : Bytes} {m : Bytes × Shown}
    (hm : m ∈ e.members time) : Json.Writes (m.2.written digest) (m.2.value digest) := by
  cases hshown : m.2 with
  | text t => exact Json.writes_quoted t
  | fingerprint value => exact Json.writes_quoted _
  | numeral t =>
      rcases exists_of_mem_members hm with ⟨u, hu⟩ | ⟨f, hf, rfl⟩
      · rw [hu] at hshown
        cases hshown
      · obtain ⟨hshows, rfl⟩ := (ofField_eq_numeral_iff f t).mp hshown
        obtain ⟨n, hn⟩ := h f hf hshows
        rw [Shown.written, Shown.value, hn, Decimal.int?_ofInt]
        exact Json.writes_ofInt n

/-- **A line is read as the heading and the fields of the event.** -/
theorem read?_rendering {e : Event} (h : e.HasNumerals) (time : Bytes) :
    Json.read? (e.rendering digest time)
      = some (.object (e.heading time
          ++ e.fields.map fun f => (f.key, (Shown.ofField f).value digest))) := by
  have hmembers : (e.members time).map (fun m => (m.1, m.2.value digest))
      = e.heading time ++ e.fields.map fun f => (f.key, (Shown.ofField f).value digest) := by
    unfold members heading
    split <;> split <;> simp [Shown.value]
  have hwrites := Json.writes_object (e.members time) (fun m hm => writes_written digest h hm)
  rw [← hmembers]
  exact Json.read?_eq_some hwrites

theorem isMember_iff {f : Field} (hnumeral : f.ShowsNumeral → ∃ n : Int, f.value = Decimal.ofInt n)
    (m : Bytes × Json.Value) : f.IsMember digest m ↔ m = (f.key, (Shown.ofField f).value digest) := by
  obtain ⟨key, v⟩ := m
  rw [Prod.mk.injEq, ← readsAs_iff hnumeral]
  exact ⟨fun h => ⟨h.key, h.value⟩, fun h => ⟨h.1, h.2⟩⟩

/-- Fields are read as one sequence of members. -/
theorem forall₂_isMember_iff {fields : List Field}
    (h : ∀ f ∈ fields, f.ShowsNumeral → ∃ n : Int, f.value = Decimal.ofInt n)
    (members : List (Bytes × Json.Value)) :
    List.Forall₂ (Field.IsMember digest) fields members
      ↔ members = fields.map fun f => (f.key, (Shown.ofField f).value digest) := by
  induction fields generalizing members with
  | nil => rw [List.forall₂_nil_left_iff, List.map_nil]
  | cons f fields ih =>
      obtain ⟨hf, hfields⟩ := List.forall_mem_cons.mp h
      cases members with
      | nil => simp
      | cons m members =>
          rw [List.forall₂_cons, isMember_iff hf, ih hfields, List.map_cons, List.cons.injEq]

/-- **Log lines are faithful.** Where numeric values are numerals, and with a provider that digests, a line of an
event holds no control byte and is read as one object: the heading of the event, and behind it the members
that show its fields, in their order, of which there is one sequence only. And there is such a line for
every limit from some length on. -/
theorem line_reads_back {p : Provider} (hp : p.Digests digest) {e : Event} (he : e.HasNumerals)
    (time : Bytes) :
    (∀ limit calls line, (answer (e.line p time limit) calls).1 = .ok (some line) →
      Json.IsPrintable line
        ∧ ∃ members, Json.read? line = some (.object (e.heading time ++ members))
          ∧ ∀ others, List.Forall₂ (Field.IsMember digest) e.fields others ↔ others = members)
      ∧ ∃ least, ∀ limit calls, least ≤ limit →
        ∃ line, (answer (e.line p time limit) calls).1 = .ok (some line) := by
  constructor
  · intro limit calls line hline
    obtain ⟨after, hrendering⟩ := answer_line hp e time limit calls
    rw [hrendering] at hline
    have hline : (if (e.rendering digest time).length ≤ limit then some (e.rendering digest time) else none)
        = some line := Except.ok.inj hline
    obtain ⟨-, hsome⟩ := Option.ite_none_right_eq_some.mp hline
    obtain rfl := Option.some.inj hsome
    refine ⟨isPrintable_rendering he time, _, read?_rendering he time, ?_⟩
    intro others
    exact forall₂_isMember_iff he others
  · refine ⟨(e.rendering digest time).length, ?_⟩
    intro limit calls hlimit
    obtain ⟨after, hrendering⟩ := answer_line hp e time limit calls
    rw [if_pos hlimit] at hrendering
    exact ⟨_, congrArg Prod.fst hrendering⟩

/-- An event whose texts look like members of a line. -/
def forgingEvent : Event where
  category := .security
  severity := .warning
  id := Bytes.ascii "login\",\"severity\":\"debug"
  fields := [
    { key := Bytes.ascii "attempts", value := Bytes.ascii "-7", numeric := true },
    { key := Bytes.ascii "user\":1,\"role", value := Bytes.ascii "alice", privacy := .hashed },
    { key := Bytes.ascii "Api_PASSWORD", value := Bytes.ascii "12", numeric := true }]

/-- None of these texts gets out of its own member. -/
theorem line_reads_back_forging :
    ∃ limit line, (answer (forgingEvent.line .standard (Bytes.ascii "now") limit) 0).1
        = .ok (some line)
      ∧ Json.read? line = some (.object [
        (Bytes.ascii "ts", .text (Bytes.ascii "now")),
        (Bytes.ascii "severity", .text (Bytes.ascii "warning")),
        (Bytes.ascii "category", .text (Bytes.ascii "security")),
        (Bytes.ascii "event_id", .text (Bytes.ascii "login\",\"severity\":\"debug")),
        (Bytes.ascii "attempts", .integer (-7)),
        (Bytes.ascii "user\":1,\"role",
          .text (Bytes.ascii "hash:" ++ Bytes.fingerprint Sha256.hash (Bytes.ascii "alice"))),
        (Bytes.ascii "Api_PASSWORD", .text (Bytes.ascii "[REDACTED]"))]) := by
  have hp : Provider.standard.Digests Sha256.hash := fun _ _ => rfl
  have hspeaks : Field.SpeaksOfSecret
      { key := Bytes.ascii "Api_PASSWORD", value := Bytes.ascii "12", numeric := true } := by
    rw [← Field.namesSecret_iff]
    decide
  have hattempts : Field.ShowsNumeral
      { key := Bytes.ascii "attempts", value := Bytes.ascii "-7", numeric := true } := by
    refine ⟨rfl, rfl, ?_⟩
    rw [← Field.namesSecret_iff]
    decide
  have huser : ¬ Field.SpeaksOfSecret
      { key := Bytes.ascii "user\":1,\"role", value := Bytes.ascii "alice", privacy := .hashed } := by
    rw [← Field.namesSecret_iff]
    decide
  have hseven : Bytes.ascii "-7" = Decimal.ofInt (-7) := by
    show Bytes.ascii "-7" = Ascii.dash :: Decimal.ofNat 7
    rw [Decimal.ofNat, if_pos (by decide)]
    decide
  have he : forgingEvent.HasNumerals := by
    intro f hf hshows
    simp only [forgingEvent, List.mem_cons, List.not_mem_nil, or_false] at hf
    rcases hf with rfl | rfl | rfl
    · exact ⟨-7, hseven⟩
    · cases hshows.plain
    · exact absurd hspeaks hshows.unveiled
  obtain ⟨hreads, least, hline⟩ := line_reads_back hp he (Bytes.ascii "now")
  obtain ⟨line, hsome⟩ := hline least 0 (Nat.le_refl _)
  obtain ⟨-, members, hread, hothers⟩ := hreads least 0 line hsome
  have hmembers := (hothers [
      (Bytes.ascii "attempts", .integer (-7)),
      (Bytes.ascii "user\":1,\"role",
        .text (Bytes.ascii "hash:" ++ Bytes.fingerprint Sha256.hash (Bytes.ascii "alice"))),
      (Bytes.ascii "Api_PASSWORD", .text (Bytes.ascii "[REDACTED]"))]).mp
    (.cons ⟨rfl, .integer hattempts (-7) hseven⟩
      (.cons ⟨rfl, .hashed huser rfl⟩ (.cons ⟨rfl, .secret hspeaks⟩ .nil)))
  refine ⟨least, line, hsome, ?_⟩
  rw [hread, ← hmembers]
  rfl

end Event

end SignedAudit
