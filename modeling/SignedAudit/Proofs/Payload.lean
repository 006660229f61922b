import SignedAudit.Record
import SignedAudit.Proofs.JsonText
import SignedAudit.Proofs.Statements

namespace SignedAudit

/-! # The payload of a record

A payload is an object, so that it tells its members apart. In the signed text it stands behind the address,
which is not escaped, and may hold whole payloads of other records with bars in front. That does not
blur the border: a payload begins with a brace, a quote and the letter `a`, and no payload holds these
three behind a bar. For a bar is always inside a string, and so is a brace behind it; a quote behind
that brace ends the string, and the end of a string is never followed by a letter. -/

open Bytes

namespace Record

/-! ## Members -/

/-- The value of a member: a text, or the metadata. -/
def writeValue : Bytes ⊕ Metadata → Bytes
  | .inl text => Json.quoted text
  | .inr metadata => metadataObject metadata

/-- The members of a payload. -/
def payloadMembers (r : Record) : List (Bytes × (Bytes ⊕ Metadata)) :=
  [(ascii "actor_type", .inl r.actorType), (ascii "actor_id", .inl r.actorId),
    (ascii "actor_username", .inl r.actorUsername), (ascii "action", .inl r.action),
    (ascii "resource", .inl r.resource), (ascii "resource_id", .inl r.resourceId),
    (ascii "user_agent", .inl r.userAgent), (ascii "result", .inl r.result),
    (ascii "reason", .inl r.reason), (ascii "metadata", .inr r.metadata)]

theorem payload_eq_object (r : Record) :
    r.payload = Json.object (r.payloadMembers.map fun m => Json.member m.1 (writeValue m.2)) := rfl

/-- The metadata can be told from what follows, and so can its entries from one another. -/
theorem selfDelimiting_metadataObject : SelfDelimiting metadataObject := by
  intro m n x y h
  obtain ⟨hentries, hxy⟩ := Json.selfDelimiting_object Json.selfDelimiting_quoted h
  refine ⟨?_, hxy⟩
  cases m
  cases n
  simp only at hentries
  subst hentries
  rfl

/-- A text begins with a quote, and the metadata with a brace. -/
theorem selfDelimiting_writeValue : SelfDelimiting writeValue := by
  intro v w x y h
  cases v with
  | inl s =>
      cases w with
      | inl t =>
          obtain ⟨hst, hxy⟩ := Json.selfDelimiting_quoted h
          exact ⟨congrArg Sum.inl hst, hxy⟩
      | inr n => exact absurd (List.cons.inj h).1 (by decide)
  | inr m =>
      cases w with
      | inl t => exact absurd (List.cons.inj h).1 (by decide)
      | inr n =>
          obtain ⟨hmn, hxy⟩ := selfDelimiting_metadataObject h
          exact ⟨congrArg Sum.inr hmn, hxy⟩

/-- **The payload tells all its members.** -/
theorem payloadMembers_eq_of_payload_eq {r r' : Record} (h : r.payload = r'.payload) :
    r.payloadMembers = r'.payloadMembers := by
  rw [payload_eq_object, payload_eq_object] at h
  exact (Json.selfDelimiting_object selfDelimiting_writeValue).injective h

/-- Address and payload are all of the entry. -/
theorem toEntry_eq {r r' : Record} (hip : r.ipAddress = r'.ipAddress) (h : r.payload = r'.payload) :
    r.toEntry = r'.toEntry := by
  have hmembers := payloadMembers_eq_of_payload_eq h
  rcases r with ⟨⟨⟩, id, time, signature⟩
  rcases r' with ⟨⟨⟩, id', time', signature'⟩
  simp only [payloadMembers, List.cons.injEq, Prod.mk.injEq, Sum.inl.injEq, Sum.inr.injEq, true_and,
    and_true] at hip hmembers
  obtain ⟨rfl, rfl, rfl, rfl, rfl, rfl, rfl, rfl, rfl, rfl⟩ := hmembers
  rw [hip]

/-! ## Seams -/

/-- How a payload begins behind a bar. -/
def seam : Bytes := [Ascii.bar, Ascii.openBrace, Ascii.quote, Ascii.lowerA]

/-- **Seamless**: no seam begins in the text, if neither a bar nor the last letter of a seam follows. -/
def Seamless (text : Bytes) : Prop :=
  ∀ ⦃b : UInt8⦄ ⦃rest : Bytes⦄, b ≠ Ascii.lowerA → b ≠ Ascii.bar →
    seam <:+: text ++ b :: rest → seam <:+: rest

/-- A seam begins with a bar. -/
theorem infix_of_infix_cons {b : UInt8} {rest : Bytes} (hb : b ≠ Ascii.bar) (h : seam <:+: b :: rest) :
    seam <:+: rest := by
  rcases List.infix_cons_iff.mp h with h | h
  · rw [seam, List.cons_prefix_cons] at h
    exact absurd h.1.symm hb
  · exact h

theorem infix_of_infix_append {text rest : Bytes} (htext : Ascii.bar ∉ text)
    (h : seam <:+: text ++ rest) : seam <:+: rest := by
  induction text with
  | nil => exact h
  | cons b text ih =>
      rw [List.mem_cons, not_or] at htext
      exact ih htext.2 (infix_of_infix_cons (Ne.symm htext.1) h)

/-- A bar is written as itself, and does not occur in the writing of any other byte. -/
theorem bar_notMem_escapeByte {b : UInt8} (hb : b ≠ Ascii.bar) : Ascii.bar ∉ Json.escapeByte b := by
  have hbar : Ascii.bar ∈ Json.escapeByte b → b = Ascii.bar :=
    Bytes.forall_byte (motive := fun b => Ascii.bar ∈ Json.escapeByte b → b = Ascii.bar) (by decide +kernel) b
  intro h
  exact hb (hbar h)

/-- No seam begins inside a string: behind the bar it would need a brace and the end of the string, and
then its last letter. -/
theorem infix_of_infix_escape {text rest : Bytes} {b : UInt8} (hb : b ≠ Ascii.lowerA)
    (h : seam <:+: Json.escape text ++ Ascii.quote :: b :: rest) :
    seam <:+: Ascii.quote :: b :: rest := by
  induction text with
  | nil => exact h
  | cons c text ih =>
      rw [Json.escape_cons, List.append_assoc] at h
      by_cases hc : c = Ascii.bar
      · have hbar : Json.escapeByte c = [Ascii.bar] := by rw [hc]; rfl
        rw [hbar, List.cons_append, List.nil_append] at h
        rcases List.infix_cons_iff.mp h with ⟨z, hz⟩ | h
        · -- the string would be a lone brace, and the seam would end behind it
          have hbrace : Json.escape [Ascii.openBrace] ++ Ascii.quote :: Ascii.lowerA :: z
              = Json.escape text ++ Ascii.quote :: b :: rest := (List.cons.inj hz).2
          obtain ⟨-, hend⟩ := Json.escape_append_quote_inj hbrace
          exact absurd (List.cons.inj hend).1.symm hb
        · exact ih h
      · exact ih (infix_of_infix_append (bar_notMem_escapeByte hc) h)

theorem seamless_quoted (text : Bytes) : Seamless (Json.quoted text) := by
  intro b rest hletter hbar h
  simp only [Json.quoted, List.cons_append, List.append_assoc, List.nil_append] at h
  -- past the opening quote, through the text, and past the closing quote and what follows it
  have hinside := infix_of_infix_cons (by decide) h
  have hquote := infix_of_infix_escape hletter hinside
  exact infix_of_infix_cons hbar (infix_of_infix_cons (by decide) hquote)

theorem seamless_member (name : Bytes) {value : Bytes} (hvalue : Seamless value) :
    Seamless (Json.member name value) := by
  intro b rest hletter hbar h
  simp only [Json.member, List.append_assoc, List.cons_append] at h
  exact hvalue hletter hbar (seamless_quoted name (by decide) (by decide) h)

/-- Commas and braces stand between the members of an object, and no letters. -/
theorem seamless_object {members : List Bytes} (hmembers : ∀ m ∈ members, Seamless m) :
    Seamless (Json.object members) := by
  have hinside : ∀ rest, seam <:+: [Ascii.comma].intercalate members ++ Ascii.closeBrace :: rest →
      seam <:+: rest := by
    intro rest h
    induction members with
    | nil => exact infix_of_infix_cons (by decide) h
    | cons m members ih =>
        have hm : Seamless m := hmembers m List.mem_cons_self
        cases members with
        | nil =>
            rw [List.intercalate_singleton] at h
            exact hm (by decide) (by decide) h
        | cons n members =>
            rw [List.intercalate_cons_cons] at h
            simp only [List.append_assoc, List.cons_append, List.nil_append] at h
            refine ih (fun k hk => hmembers k (List.mem_cons_of_mem m hk)) ?_
            exact hm (by decide) (by decide) h
  intro b rest hletter hbar h
  simp only [Json.object, List.cons_append, List.append_assoc, List.nil_append] at h
  have hclosed := hinside (b :: rest) (infix_of_infix_cons (by decide) h)
  exact infix_of_infix_cons hbar hclosed

theorem seamless_metadataObject (m : Metadata) : Seamless (metadataObject m) := by
  refine seamless_object ?_
  intro member hmember
  obtain ⟨x, -, rfl⟩ := List.mem_map.mp hmember
  exact seamless_member x.1 (seamless_quoted x.2)

theorem seamless_writeValue (v : Bytes ⊕ Metadata) : Seamless (writeValue v) := by
  cases v with
  | inl text => exact seamless_quoted text
  | inr metadata => exact seamless_metadataObject metadata

/-- **No payload has a seam inside.** -/
theorem not_seam_infix_payload (r : Record) : ¬ seam <:+: r.payload := by
  intro h
  have hseamless : Seamless r.payload := by
    rw [payload_eq_object]
    refine seamless_object ?_
    intro member hmember
    obtain ⟨m, -, rfl⟩ := List.mem_map.mp hmember
    exact seamless_member m.1 (seamless_writeValue m.2)
  have hend : seam <:+: r.payload ++ [Ascii.closeBrace] := List.infix_append_of_infix_left h
  have hnil := hseamless (by decide) (by decide) hend
  exact absurd (List.infix_nil.mp hnil) (by decide)

/-- A payload has no payload behind a bar. -/
theorem payload_ne_append_bar_payload (r r' : Record) (u : Bytes) :
    r.payload ≠ u ++ Ascii.bar :: r'.payload := by
  intro h
  obtain ⟨rest, hrest⟩ : ∃ rest, r'.payload = Ascii.openBrace :: Ascii.quote :: Ascii.lowerA :: rest :=
    ⟨_, rfl⟩
  apply not_seam_infix_payload r
  rw [h, hrest]
  exact ⟨u, rest, by simp only [seam, List.append_assoc, List.cons_append, List.nil_append]⟩

/-- **The border between any text and a payload is clear**, whatever the text holds. -/
theorem append_bar_payload_inj {u v : Bytes} {r r' : Record}
    (h : u ++ Ascii.bar :: r.payload = v ++ Ascii.bar :: r'.payload) :
    u = v ∧ r.payload = r'.payload := by
  rcases List.append_eq_append_iff.mp h with ⟨w, hv, hw⟩ | ⟨w, hu, hw⟩
  · cases w with
    | nil =>
        rw [List.append_nil] at hv
        exact ⟨hv.symm, (List.cons.inj hw).2⟩
    | cons c w => exact absurd (List.cons.inj hw).2 (payload_ne_append_bar_payload r r' w)
  · cases w with
    | nil =>
        rw [List.append_nil] at hu
        exact ⟨hu, (List.cons.inj hw).2.symm⟩
    | cons c w => exact absurd (List.cons.inj hw).2 (payload_ne_append_bar_payload r' r w)

/-! ## The signed text of a record -/

/-- **The signed text of a record tells all that is signed**, if no bar is in the identifier. -/
theorem canonical_attestation_eq_iff {r r' : Record} (hr : Ascii.bar ∉ r.id) (hr' : Ascii.bar ∉ r'.id) :
    r.attestation.canonical = r'.attestation.canonical
      ↔ r.id = r'.id ∧ r.time = r'.time ∧ r.toEntry = r'.toEntry := by
  constructor
  · intro h
    have hbars : r.attestation.eventId.count Ascii.bar = r'.attestation.eventId.count Ascii.bar := by
      show r.id.count Ascii.bar = r'.id.count Ascii.bar
      rw [List.count_eq_zero.mpr hr, List.count_eq_zero.mpr hr']
    obtain ⟨hid, htime, hrest⟩ := Attestation.parts_of_canonical_eq h hbars
    obtain ⟨hip, hpayload⟩ := append_bar_payload_inj hrest
    exact ⟨hid, htime, toEntry_eq hip hpayload⟩
  · rintro ⟨hid, htime, hentry⟩
    have hpayload : r.payload = r'.payload := by
      rw [payload_eq_object, payload_eq_object, payloadMembers, payloadMembers, hentry]
    rw [attestation, attestation, hid, htime, hentry, hpayload]

end Record

end SignedAudit
