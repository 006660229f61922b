import SignedAudit.Event.Line
import SignedAudit.Instant.Text
import SignedAudit.Proofs.InstantText

namespace SignedAudit

/-! # When the line of an event cannot be written

A line is put together from its members in their order. Members whose value is shown as it is never fail;
only a digest is asked for, and the line fails with the failure of the provider. So a failure of a line is
always a failure of the provider's plain digest, and an event with one digest behind members that fit
fails exactly when that digest does. -/

/-! ## Consultations -/

namespace Consultation

variable {α β : Type}

/-- What a consultation yields after a number of calls, and the number of calls after it. -/
def answer (ask : Consultation α) (calls : Nat) : Except Failure α × Nat := ask calls

@[simp] theorem answer_pure (a : α) (calls : Nat) :
    answer (pure a : Consultation α) calls = (.ok a, calls) := rfl

@[simp] theorem answer_bind (x : Consultation α) (f : α → Consultation β) (calls : Nat) :
    answer (x >>= f) calls =
      match answer x calls with
      | (.ok a, after) => answer (f a) after
      | (.error e, after) => (.error e, after) := by
  simp only [answer, bind, ExceptT.bind, StateT.bind, ExceptT.mk, ExceptT.bindCont]
  rcases x calls with ⟨outcome, after⟩
  cases outcome <;> rfl

@[simp] theorem answer_askSha256 (p : Provider) (data : Bytes) (calls : Nat) :
    answer (p.askSha256 data) calls = (p.sha256 calls data, calls + 1) := rfl

end Consultation

namespace Event

open Consultation

/-! ## One member after the other -/

/-- The digest of a value fails where the provider does, and is not asked for the empty value. -/
theorem answer_fingerprint_error_iff (p : Provider) (value : Bytes) (calls : Nat) (f : Failure) :
    (answer (p.fingerprint value) calls).1 = .error f
      ↔ value ≠ [] ∧ p.sha256 calls value = .error f := by
  unfold Provider.fingerprint
  by_cases hempty : value = []
  · simp only [hempty, if_true, answer_pure, reduceCtorEq, ne_eq, not_true_eq_false, false_and]
  · simp only [hempty, if_false, answer_bind, answer_askSha256, ne_eq, not_false_eq_true, true_and]
    cases p.sha256 calls value <;> simp only [answer_pure, reduceCtorEq, Except.error.injEq]

/-- Is the value shown without a digest? -/
def Shown.isPlain : Shown → Bool
  | .text _ => true
  | .numeral _ => true
  | .fingerprint _ => false

/-- A plain value is written without a question to the provider. -/
theorem answer_render_of_isPlain (p : Provider) {shown : Shown} (h : shown.isPlain = true)
    (calls : Nat) : ∃ text, answer (shown.render p) calls = (.ok text, calls) := by
  cases shown with
  | text t => exact ⟨Json.quoted t, rfl⟩
  | numeral t => exact ⟨t, rfl⟩
  | fingerprint value => cases h

/-- Digests are written where the provider yields them. -/
theorem answer_render_error_iff (p : Provider) (value : Bytes) (calls : Nat) (f : Failure) :
    (answer (Shown.render p (.fingerprint value)) calls).1 = .error f
      ↔ value ≠ [] ∧ p.sha256 calls value = .error f := by
  rw [← answer_fingerprint_error_iff, Shown.render, answer_bind]
  rcases answer (p.fingerprint value) calls with ⟨_ | _, after⟩ <;>
    simp only [answer_pure, reduceCtorEq]

/-- A member, when there is room for it: its failure, or else that of the members behind it. -/
theorem answer_assemble_cons (p : Provider) (room : Nat) (opening : UInt8) (name : Bytes)
    (shown : Shown) (rest : List (Bytes × Shown)) (calls : Nat) :
    answer (assemble p room opening ((name, shown) :: rest)) calls =
      if room < (opening :: Json.quoted name ++ [Ascii.colon]).length then (.ok none, calls)
      else
        match answer (shown.render p) calls with
        | (.error f, after) => (.error f, after)
        | (.ok value, after) =>
          if room - (opening :: Json.quoted name ++ [Ascii.colon]).length < value.length then
            (.ok none, after)
          else
            match answer (assemble p (room - (opening :: Json.quoted name ++ [Ascii.colon]).length
                - value.length) Ascii.comma rest) after with
            | (.error f, final) => (.error f, final)
            | (.ok tail, final) =>
              (.ok (tail.map fun text => (opening :: Json.quoted name ++ [Ascii.colon]) ++ value
                ++ text), final) := by
  rw [assemble]
  split
  · rfl
  · rw [answer_bind]
    rcases answer (shown.render p) calls with ⟨_ | value, after⟩
    · rfl
    · simp only
      split
      · rfl
      · rw [answer_bind]
        rcases answer (assemble p _ Ascii.comma rest) after with ⟨_ | tail, final⟩ <;> rfl

/-- **Where failures come from**: a line that fails, fails with a failure of the plain digest. -/
theorem exists_of_answer_assemble_error {p : Provider} {members : List (Bytes × Shown)} {f : Failure} :
    ∀ {room : Nat} {opening : UInt8} {calls : Nat},
      (answer (assemble p room opening members) calls).1 = .error f →
        ∃ call data, p.sha256 call data = .error f := by
  induction members with
  | nil =>
      intro room opening calls h
      simp only [assemble, answer_pure, reduceCtorEq] at h
  | cons member rest ih =>
      intro room opening calls h
      obtain ⟨name, shown⟩ := member
      rw [answer_assemble_cons] at h
      split at h
      · simp only [reduceCtorEq] at h
      · split at h
        · -- the value of this member fails, and so it is a digest
          next e after hrender =>
            cases shown with
            | text t => cases hrender
            | numeral t => cases hrender
            | fingerprint value =>
                have hvalue := (answer_render_error_iff p value calls e).mp (by rw [hrender])
                cases h
                exact ⟨calls, value, hvalue.2⟩
        · split at h
          · simp only [reduceCtorEq] at h
          · split at h
            · next e final htail =>
                cases h
                exact ih (by rw [htail])
            · simp only [reduceCtorEq] at h

/-- Members without a digest never fail, and ask for nothing. -/
theorem answer_assemble_of_isPlain {p : Provider} {members : List (Bytes × Shown)}
    (hplain : ∀ m ∈ members, m.2.isPlain = true) (room : Nat) (opening : UInt8) (calls : Nat) :
    ∃ text, answer (assemble p room opening members) calls = (.ok text, calls) := by
  induction members generalizing room opening with
  | nil => exact ⟨_, rfl⟩
  | cons member rest ih =>
      obtain ⟨name, shown⟩ := member
      obtain ⟨value, hvalue⟩ := answer_render_of_isPlain p (hplain _ List.mem_cons_self) calls
      rw [answer_assemble_cons, hvalue]
      split
      · exact ⟨none, rfl⟩
      · simp only
        split
        · exact ⟨none, rfl⟩
        · obtain ⟨tail, htail⟩ := ih (fun m hm => hplain m (List.mem_cons_of_mem _ hm))
            (room - (opening :: Json.quoted name ++ [Ascii.colon]).length - value.length) Ascii.comma
          rw [htail]
          exact ⟨_, rfl⟩

/-- **A line ends in its closing brace.** -/
theorem exists_of_answer_assemble_some {p : Provider} {members : List (Bytes × Shown)} :
    ∀ {room : Nat} {opening : UInt8} {calls : Nat} {text : Bytes},
      (answer (assemble p room opening members) calls).1 = .ok (some text) →
        ∃ front, text = front ++ [Ascii.closeBrace] := by
  induction members with
  | nil =>
      intro room opening calls text h
      rw [assemble, answer_pure] at h
      split at h
      · cases h
      · cases h
        exact ⟨[], rfl⟩
  | cons member rest ih =>
      intro room opening calls text h
      obtain ⟨name, shown⟩ := member
      rw [answer_assemble_cons] at h
      split at h
      · cases h
      · split at h
        · cases h
        · split at h
          · cases h
          · split at h
            · cases h
            · -- the text of the members behind it ends in the brace
              next htail =>
                obtain ⟨tail, htext, rfl⟩ := Option.map_eq_some_iff.mp (Except.ok.inj h)
                obtain ⟨front, rfl⟩ := ih (by rw [htail, htext])
                exact ⟨_, (List.append_assoc _ _ _).symm⟩

/-! ## A digest behind members that fit -/

/-- The bytes that a member with a text takes, with the byte in front of it. -/
def textCost (name t : Bytes) : Nat := (Json.quoted name).length + 2 + (Json.quoted t).length

theorem length_key (opening : UInt8) (name : Bytes) :
    (opening :: Json.quoted name ++ [Ascii.colon]).length = (Json.quoted name).length + 2 := by
  simp only [List.cons_append, List.length_cons, List.length_append, List.length_nil]

/-- A text that fits is passed over. -/
theorem answer_assemble_text_error_iff {p : Provider} {room : Nat} {name t : Bytes}
    (hfit : textCost name t ≤ room) (opening : UInt8) (rest : List (Bytes × Shown)) (calls : Nat)
    (f : Failure) :
    (answer (assemble p room opening ((name, .text t) :: rest)) calls).1 = .error f
      ↔ (answer (assemble p (room - textCost name t) Ascii.comma rest) calls).1 = .error f := by
  unfold textCost at hfit ⊢
  rw [answer_assemble_cons, length_key, if_neg (by omega), Shown.render, answer_pure]
  simp only
  rw [if_neg (by omega), Nat.sub_sub]
  rcases answer (assemble p _ Ascii.comma rest) calls with ⟨_ | tail, after⟩ <;>
    simp only [reduceCtorEq]

/-- Texts that fit together are passed over. -/
theorem answer_assemble_texts_error_iff (p : Provider) (rest : List (Bytes × Shown)) (calls : Nat)
    (f : Failure) {texts : List (Bytes × Bytes)} {room : Nat}
    (hfit : (texts.map fun m => textCost m.1 m.2).sum ≤ room) (opening : UInt8) :
    ∃ next, (answer (assemble p room opening (texts.map (fun m => (m.1, .text m.2)) ++ rest)) calls).1
        = .error f
      ↔ (answer (assemble p (room - (texts.map fun m => textCost m.1 m.2).sum) next rest) calls).1
        = .error f := by
  induction texts generalizing room opening with
  | nil => exact ⟨opening, Iff.rfl⟩
  | cons m texts ih =>
      rw [List.map_cons, List.sum_cons] at hfit
      have hrest : (texts.map fun m => textCost m.1 m.2).sum ≤ room - textCost m.1 m.2 := by omega
      obtain ⟨next, hnext⟩ := ih hrest Ascii.comma
      refine ⟨next, ?_⟩
      rw [List.map_cons, List.map_cons, List.sum_cons, List.cons_append,
        answer_assemble_text_error_iff (by omega), hnext, Nat.sub_sub]

/-- A digest with nothing but plain values behind it fails the line exactly when the provider fails. -/
theorem answer_assemble_digest_error_iff {p : Provider} {room : Nat} {name value : Bytes}
    (hfit : (Json.quoted name).length + 2 ≤ room) (opening : UInt8) {rest : List (Bytes × Shown)}
    (hplain : ∀ m ∈ rest, m.2.isPlain = true) (calls : Nat) (f : Failure) :
    (answer (assemble p room opening ((name, .fingerprint value) :: rest)) calls).1 = .error f
      ↔ value ≠ [] ∧ p.sha256 calls value = .error f := by
  rw [answer_assemble_cons, length_key, if_neg (by omega), ← answer_render_error_iff]
  rcases answer (Shown.render p (.fingerprint value)) calls with ⟨e | text, after⟩
  · simp only [Except.error.injEq]
  · simp only [reduceCtorEq, iff_false]
    split
    · simp only [reduceCtorEq, not_false_eq_true]
    · obtain ⟨tail, htail⟩ := answer_assemble_of_isPlain hplain
        (room - ((Json.quoted name).length + 2) - text.length) Ascii.comma after
      rw [htail]
      simp only [reduceCtorEq, not_false_eq_true]

/-! ## The line that a log keeps -/

/-- A field that is not declared as hashed is shown without a digest, whatever its key says. -/
theorem isPlain_ofField {field : Field} (h : field.privacy ≠ .hashed) :
    (Shown.ofField field).isPlain = true := by
  unfold Shown.ofField Field.disclosure
  cases hsecret : field.namesSecret with
  | true => rfl
  | false =>
      cases hprivacy : field.privacy with
      | plain => cases hnumeric : field.numeric <;> rfl
      | redacted => rfl
      | hashed => exact absurd hprivacy h

/-- A member of a line is a text, or it shows a field. -/
theorem exists_of_mem_members {e : Event} {time : Bytes} {m : Bytes × Shown} (h : m ∈ e.members time) :
    (∃ t, m.2 = .text t) ∨ ∃ field ∈ e.fields, m = (field.key, .ofField field) := by
  unfold members at h
  simp only [List.mem_append, List.mem_map] at h
  rcases h with ((h | h) | h) | ⟨field, hfield, rfl⟩
  · simp only [List.mem_cons, List.not_mem_nil, or_false] at h
    rcases h with rfl | rfl | rfl <;> exact Or.inl ⟨_, rfl⟩
  · split at h
    · cases h
    · rw [List.mem_singleton.mp h]
      exact Or.inl ⟨_, rfl⟩
  · split at h
    · cases h
    · rw [List.mem_singleton.mp h]
      exact Or.inl ⟨_, rfl⟩
  · exact Or.inr ⟨field, hfield, rfl⟩

/-- An event without hashed fields is shown without a digest. -/
theorem isPlain_of_mem_members {e : Event} (h : ∀ field ∈ e.fields, field.privacy ≠ .hashed)
    (time : Bytes) : ∀ m ∈ e.members time, m.2.isPlain = true := by
  intro m hm
  rcases exists_of_mem_members hm with ⟨t, ht⟩ | ⟨field, hfield, rfl⟩
  · rw [ht]
    rfl
  · exact isPlain_ofField (h field hfield)

/-- The event that stands for one that is too long has no hashed field. -/
theorem privacy_of_mem_oversize (e : Event) : ∀ field ∈ e.oversize.fields, field.privacy ≠ .hashed := by
  intro field hfield
  unfold oversize at hfield
  rcases List.mem_append.mp hfield with hfield | hfield
  · split at hfield
    · cases hfield
    · rw [List.mem_singleton.mp hfield]
      exact Privacy.noConfusion
  · rw [List.mem_singleton.mp hfield]
    exact Privacy.noConfusion

/-- **A log fails to write an event exactly when the event's own line fails.** -/
theorem answer_logLine_error_iff (p : Provider) (e : Event) (time : Bytes) (calls : Nat) (f : Failure) :
    (answer (e.logLine? p time) calls).1 = .error f
      ↔ (answer (e.line p time lineLimit) calls).1 = .error f := by
  unfold logLine?
  rw [answer_bind]
  rcases answer (e.line p time lineLimit) calls with ⟨_ | _ | text, after⟩
  · rfl
  · -- the line is too long, and the one in its place has no digest in it
    have hplain := isPlain_of_mem_members (privacy_of_mem_oversize e) time
    obtain ⟨text, htext⟩ := answer_assemble_of_isPlain (p := p) hplain lineLimit Ascii.openBrace after
    simp only [line, htext, reduceCtorEq]
  · simp only [answer_pure, reduceCtorEq]

theorem exists_of_answer_logLine_some {p : Provider} {e : Event} {time text : Bytes} {calls : Nat}
    (h : (answer (e.logLine? p time) calls).1 = .ok (some text)) :
    ∃ front, text = front ++ [Ascii.closeBrace] := by
  unfold logLine? at h
  rw [answer_bind] at h
  cases hline : answer (e.line p time lineLimit) calls with
  | mk outcome after =>
      rw [hline] at h
      rcases outcome with _ | _ | own
      · cases h
      · exact exists_of_answer_assemble_some h
      · cases h
        exact exists_of_answer_assemble_some (by rw [← line, hline])

end Event

end SignedAudit
