import SignedAudit.Canonical
import SignedAudit.Proofs.InstantText

namespace SignedAudit

/-! # What the signed texts tell apart

Nothing is escaped in a signed text, so a bar inside a part looks like one between two parts. Read as a list
of fields, the text of an event holds the fields of its identifier, one field for the time, and the
fields of address and payload; the text of a receipt holds the fields of its origin and four more. From
this: the text of an event determines the event as soon as it is known how many bars the identifier and
the address hold; an event shares its text with another one exactly when address or payload hold a bar or
the identifier names an instant; the text of a receipt is that of some event exactly when the origin
of the receipt names an instant; and it is that of another receipt only if a bar moves inside the origin. -/

open Bytes

/-- Somewhere behind a bar a text has the canonical text of an instant as a whole field. -/
def Bytes.NamesInstant (text : Bytes) : Prop := ∃ t : Instant, t.canonicalText ∈ (fields text).tail

/-- A text that names an instant can be cut around it, once a bar ends it. -/
theorem Bytes.NamesInstant.split {text : Bytes} (h : text.NamesInstant) :
    ∃ (u : Bytes) (t : Instant) (v : Bytes),
      text ++ [Ascii.bar] = u ++ Ascii.bar :: t.canonicalText ++ Ascii.bar :: v := by
  obtain ⟨t, ht⟩ := h
  obtain ⟨u, v, hsplit⟩ := exists_of_mem_tail_fields ht
  exact ⟨u, t, v, hsplit⟩

/-- A field behind at least one other is one behind a bar. -/
theorem Bytes.namesInstant_of_fields_eq {text a : Bytes} {t : Instant} {u : List Bytes}
    (h : fields text = fields a ++ t.canonicalText :: u) : text.NamesInstant := by
  obtain ⟨first, others, ha⟩ := List.exists_cons_of_ne_nil (fields_ne_nil a)
  refine ⟨t, ?_⟩
  rw [h, ha, List.cons_append, List.tail_cons]
  exact List.mem_append_right others List.mem_cons_self

/-! ## Events -/

namespace Attestation

theorem fields_canonical (a : Attestation) :
    fields a.canonical
      = fields a.eventId ++ a.time.canonicalText :: fields (a.sourceIp ++ Ascii.bar :: a.payload) := by
  rw [canonical, fields_append_bar, fields_append_bar, fields_append_bar, fields_append_bar,
    fields_of_notMem a.time.bar_notMem_canonicalText]
  simp only [List.append_assoc, List.cons_append, List.nil_append]

/-- Two texts with as many bars in the identifiers agree on identifier and time, and on address and
payload together. -/
theorem parts_of_canonical_eq {a b : Attestation} (h : a.canonical = b.canonical)
    (hid : a.eventId.count Ascii.bar = b.eventId.count Ascii.bar) :
    a.eventId = b.eventId ∧ a.time = b.time
      ∧ a.sourceIp ++ Ascii.bar :: a.payload = b.sourceIp ++ Ascii.bar :: b.payload := by
  have hfields : fields a.canonical = fields b.canonical := by rw [h]
  rw [fields_canonical, fields_canonical] at hfields
  -- as many bars are as many fields, so that both identifiers end at the same place
  obtain ⟨hevent, hrest⟩ := append_fields_inj hfields hid
  obtain ⟨htime, hrest⟩ := List.cons.inj hrest
  exact ⟨hevent, Instant.canonicalText_injective htime, fields_injective hrest⟩

/-- As many bars in the identifier, and as many in the address. -/
def SameBars (a b : Attestation) : Prop :=
  a.eventId.count Ascii.bar = b.eventId.count Ascii.bar
    ∧ a.sourceIp.count Ascii.bar = b.sourceIp.count Ascii.bar

/-- **The text and two numbers determine the event**: those of the bars in identifier and address. -/
theorem eq_of_canonical_eq {a b : Attestation} (h : a.canonical = b.canonical) (hbars : a.SameBars b) :
    a = b := by
  obtain ⟨hid, hip⟩ := hbars
  obtain ⟨hevent, htime, hrest⟩ := parts_of_canonical_eq h hid
  have hfields : fields (a.sourceIp ++ Ascii.bar :: a.payload)
      = fields (b.sourceIp ++ Ascii.bar :: b.payload) := by rw [hrest]
  rw [fields_append_bar, fields_append_bar] at hfields
  obtain ⟨hsource, hpayload⟩ := append_fields_inj hfields hip
  have hload : a.payload = b.payload := fields_injective hpayload
  cases a
  cases b
  simp_all only

theorem count_canonical (a : Attestation) :
    a.canonical.count Ascii.bar
      = a.eventId.count Ascii.bar + a.sourceIp.count Ascii.bar + a.payload.count Ascii.bar + 3 := by
  have htime : a.time.canonicalText.count Ascii.bar = 0 :=
    List.count_eq_zero.mpr a.time.bar_notMem_canonicalText
  simp only [canonical, List.count_append, List.count_cons_self, htime]
  omega

/-! ## Events with a twin -/

/-- **Ambiguous**: a bar in address or payload, or an instant that the identifier names. -/
def IsAmbiguous (a : Attestation) : Prop :=
  Ascii.bar ∈ a.sourceIp ∨ Ascii.bar ∈ a.payload ∨ a.eventId.NamesInstant

/-- The text of an event that is not ambiguous is the text of no other event. -/
theorem eq_of_canonical_eq_of_not_isAmbiguous {a b : Attestation} (ha : ¬ a.IsAmbiguous)
    (h : b.canonical = a.canonical) : b = a := by
  obtain ⟨hip, hload, hid⟩ : Ascii.bar ∉ a.sourceIp ∧ Ascii.bar ∉ a.payload
      ∧ ¬ a.eventId.NamesInstant := by
    simpa only [IsAmbiguous, not_or] using ha
  have hcount := congrArg (List.count Ascii.bar) h
  rw [count_canonical, count_canonical, List.count_eq_zero.mpr hip, List.count_eq_zero.mpr hload]
    at hcount
  -- with fewer bars in its identifier, `b` would have its time inside the identifier of `a`
  have hids : b.eventId.count Ascii.bar = a.eventId.count Ascii.bar := by
    refine Classical.byContradiction fun hne => ?_
    have hfields : fields b.canonical = fields a.canonical := by rw [h]
    rw [fields_canonical, fields_canonical] at hfields
    rcases List.append_eq_append_iff.mp hfields with ⟨u, hu, hrest⟩ | ⟨u, hu, -⟩
    · cases u with
      | nil =>
          rw [List.append_nil] at hu
          exact hne (by rw [fields_injective hu])
      | cons time u =>
          obtain ⟨htime, -⟩ := List.cons.inj hrest
          rw [← htime] at hu
          exact hid (namesInstant_of_fields_eq hu)
    · have hlength := congrArg List.length hu
      rw [List.length_append, length_fields, length_fields] at hlength
      omega
  refine eq_of_canonical_eq h ⟨hids, ?_⟩
  rw [List.count_eq_zero.mpr hip]
  omega

/-- An ambiguous event has a twin: its text can be cut at another place. -/
theorem exists_twin {a : Attestation} (ha : a.IsAmbiguous) :
    ∃ b, b ≠ a ∧ b.canonical = a.canonical := by
  have hne {b : Attestation} (hlength : b.payload.length ≠ a.payload.length) : b ≠ a := by
    rintro rfl
    exact hlength rfl
  rcases ha with hip | hload | hid
  · obtain ⟨p, q, hsplit⟩ := List.append_of_mem hip
    refine ⟨⟨a.eventId, a.time, p, q ++ Ascii.bar :: a.payload⟩, hne ?_, ?_⟩
    · rw [List.length_append, List.length_cons]
      omega
    · simp only [canonical, hsplit, List.append_assoc, List.cons_append]
  · obtain ⟨p, q, hsplit⟩ := List.append_of_mem hload
    refine ⟨⟨a.eventId, a.time, a.sourceIp ++ Ascii.bar :: p, q⟩, hne ?_, ?_⟩
    · show q.length ≠ a.payload.length
      rw [hsplit, List.length_append, List.length_cons]
      omega
    · simp only [canonical, hsplit, List.append_assoc, List.cons_append]
  · obtain ⟨u, t, v, hsplit⟩ := hid.split
    refine ⟨⟨u, t, v ++ a.time.canonicalText, a.sourceIp ++ Ascii.bar :: a.payload⟩, hne ?_, ?_⟩
    · rw [List.length_append, List.length_cons]
      omega
    · have hcanonical : a.canonical = a.eventId ++ [Ascii.bar] ++ (a.time.canonicalText
          ++ Ascii.bar :: a.sourceIp ++ Ascii.bar :: a.payload) := by
        simp only [canonical, List.append_assoc, List.cons_append, List.nil_append]
      rw [hcanonical, hsplit]
      simp only [canonical, List.append_assoc, List.cons_append]

/-- **Events that share their text with another one are the ambiguous ones.** -/
theorem isAmbiguous_iff_exists_twin (a : Attestation) :
    a.IsAmbiguous ↔ ∃ b, b ≠ a ∧ b.canonical = a.canonical := by
  refine ⟨exists_twin, ?_⟩
  rintro ⟨b, hne, h⟩
  exact Classical.byContradiction fun ha => hne (eq_of_canonical_eq_of_not_isAmbiguous ha h)

end Attestation

/-! ## Receipts -/

namespace Receipt

/-- Token and address as the signed text has them, in front of the numbers. -/
def origin (r : Receipt) : Bytes := r.tokenId ++ Ascii.bar :: r.sourceIp

/-- What follows the origin in the signed text: two numbers, the time and the nonce. -/
def remainder (r : Receipt) (nonce : Nonce) : List Bytes :=
  [Decimal.ofInt r.eventCount, Decimal.ofInt r.byteCount, r.time.canonicalText, Hex.encode nonce.val]

theorem fields_canonical (r : Receipt) (nonce : Nonce) :
    fields (r.canonical nonce) = fields r.origin ++ r.remainder nonce := by
  rw [canonical, fields_append_bar, fields_append_bar, fields_append_bar, fields_append_bar,
    fields_of_notMem (Decimal.bar_notMem_ofInt r.eventCount),
    fields_of_notMem (Decimal.bar_notMem_ofInt r.byteCount),
    fields_of_notMem r.time.bar_notMem_canonicalText, fields_of_notMem (Hex.bar_notMem_encode nonce.val)]
  simp only [origin, remainder, List.append_assoc, List.cons_append, List.nil_append]

/-- An instant is no number: its text has a letter. -/
theorem canonicalText_ne_ofInt (t : Instant) (n : Int) : t.canonicalText ≠ Decimal.ofInt n := by
  intro h
  have hmem := t.upperT_mem_canonicalText
  rw [h] at hmem
  rcases Decimal.mem_ofInt hmem with h | h <;> revert h <;> decide

/-- The time of an event with the text of a receipt is one of the fields of the receipt's origin: it
is none of the two numbers, and at least two fields stand behind it. -/
theorem namesInstant_of_canonical_eq {a : Attestation} {r : Receipt} {nonce : Nonce}
    (h : a.canonical = r.canonical nonce) : r.origin.NamesInstant := by
  have hfields : fields a.canonical = fields (r.canonical nonce) := by rw [h]
  rw [Attestation.fields_canonical, fields_canonical, fields_append_bar] at hfields
  have hip := length_fields a.sourceIp
  have hload := length_fields a.payload
  rcases List.append_eq_append_iff.mp hfields with ⟨u, horigin, hrest⟩ | ⟨u, -, hrest⟩
  · -- the time lies in the origin, or it is the number of events
    cases u with
    | nil =>
        simp only [remainder, List.nil_append, List.cons.injEq] at hrest
        exact absurd hrest.1 (canonicalText_ne_ofInt _ _)
    | cons time u =>
        rw [List.cons_append, List.cons.injEq] at hrest
        rw [← hrest.1] at horigin
        exact namesInstant_of_fields_eq horigin
  · -- the time lies among the four last fields, of which only the numbers have two behind them
    rcases u with _ | ⟨count, _ | ⟨bytes, u⟩⟩
    · simp only [remainder, List.nil_append, List.cons.injEq] at hrest
      exact absurd hrest.1.symm (canonicalText_ne_ofInt _ _)
    · simp only [remainder, List.cons_append, List.nil_append, List.cons.injEq] at hrest
      exact absurd hrest.2.1.symm (canonicalText_ne_ofInt _ _)
    · have hlength := congrArg List.length hrest
      simp only [remainder, List.length_cons, List.length_append, List.length_nil] at hlength
      omega

/-- Where the origin names an instant, the text can be read as that of an event at this instant. -/
theorem exists_of_namesInstant {r : Receipt} (h : r.origin.NamesInstant) (nonce : Nonce) :
    ∃ a : Attestation, a.canonical = r.canonical nonce := by
  obtain ⟨u, t, v, hsplit⟩ := h.split
  have hcanonical : r.canonical nonce = r.origin ++ [Ascii.bar] ++ (Decimal.ofInt r.eventCount
      ++ Ascii.bar :: Decimal.ofInt r.byteCount ++ Ascii.bar :: r.time.canonicalText
      ++ Ascii.bar :: Hex.encode nonce.val) := by
    simp only [canonical, origin, List.append_assoc, List.cons_append, List.nil_append]
  refine ⟨⟨u, t, v ++ Decimal.ofInt r.eventCount, Decimal.ofInt r.byteCount
    ++ Ascii.bar :: r.time.canonicalText ++ Ascii.bar :: Hex.encode nonce.val⟩, ?_⟩
  rw [hcanonical, hsplit, Attestation.canonical]
  simp only [List.append_assoc, List.cons_append]

/-- **Receipts with the text of an event are those whose origin names an instant.** -/
theorem exists_canonical_eq_iff (r : Receipt) (nonce : Nonce) :
    (∃ a : Attestation, a.canonical = r.canonical nonce) ↔ r.origin.NamesInstant :=
  ⟨fun ⟨_, h⟩ => namesInstant_of_canonical_eq h, fun h => exists_of_namesInstant h nonce⟩

/-! ## Receipts apart -/

theorem length_remainder (r : Receipt) (nonce : Nonce) : (r.remainder nonce).length = 4 := rfl

/-- The fields behind the origin tell what they were written from. -/
theorem remainder_inj {r r' : Receipt} {nonce nonce' : Nonce}
    (h : r.remainder nonce = r'.remainder nonce') :
    r.eventCount = r'.eventCount ∧ r.byteCount = r'.byteCount ∧ r.time = r'.time ∧ nonce = nonce' := by
  simp only [remainder, List.cons.injEq, and_true] at h
  obtain ⟨hevents, hbytes, htime, hnonce⟩ := h
  exact ⟨Decimal.ofInt_injective hevents, Decimal.ofInt_injective hbytes,
    Instant.canonicalText_injective htime, Subtype.ext (Hex.encode_injective hnonce)⟩

/-- **The text of a receipt is read from its end**: the last four fields are the numbers, the time and the
nonce, and what stands in front of them is the origin. -/
theorem canonical_eq_iff (r r' : Receipt) (nonce nonce' : Nonce) :
    r.canonical nonce = r'.canonical nonce'
      ↔ r.origin = r'.origin ∧ r.remainder nonce = r'.remainder nonce' := by
  rw [← fields_injective.eq_iff, fields_canonical, fields_canonical]
  constructor
  · intro h
    have hlength : (r.remainder nonce).length = (r'.remainder nonce').length := by
      rw [length_remainder, length_remainder]
    obtain ⟨horigin, hremainder⟩ := List.append_inj' h hlength
    exact ⟨fields_injective horigin, hremainder⟩
  · rintro ⟨horigin, hremainder⟩
    rw [horigin, hremainder]

/-- The bar between token and address is known where it is the first one of the origin, or the last one. -/
theorem origin_inj {r r' : Receipt} (h : r.origin = r'.origin)
    (hbars : Ascii.bar ∉ r.tokenId ∧ Ascii.bar ∉ r'.tokenId
      ∨ Ascii.bar ∉ r.sourceIp ∧ Ascii.bar ∉ r'.sourceIp) :
    r.tokenId = r'.tokenId ∧ r.sourceIp = r'.sourceIp := by
  have hcount : r.tokenId.count Ascii.bar = r'.tokenId.count Ascii.bar := by
    rcases hbars with ⟨hr, hr'⟩ | ⟨hr, hr'⟩
    · rw [List.count_eq_zero.mpr hr, List.count_eq_zero.mpr hr']
    · have horigin := congrArg (List.count Ascii.bar) h
      simp only [origin, List.count_append, List.count_cons_self, List.count_eq_zero.mpr hr,
        List.count_eq_zero.mpr hr'] at horigin
      omega
  have hfields : fields r.origin = fields r'.origin := by rw [h]
  rw [origin, origin, fields_append_bar, fields_append_bar] at hfields
  obtain ⟨htoken, hip⟩ := append_fields_inj hfields hcount
  exact ⟨htoken, fields_injective hip⟩

/-- **The text of a receipt can be decoded**, but for the bar between token and address: two receipts have one
text exactly when they agree on the numbers, the time and the nonce, and their tokens and addresses are one
text around a bar. So the text tells receipts apart whose tokens hold no bar, or whose addresses hold none, and
with another nonce it is always another text. -/
theorem canonical_decodable (r r' : Receipt) (nonce nonce' : Nonce) :
    (r.canonical nonce = r'.canonical nonce'
        ↔ r.eventCount = r'.eventCount ∧ r.byteCount = r'.byteCount ∧ r.time = r'.time ∧ nonce = nonce'
          ∧ r.tokenId ++ Ascii.bar :: r.sourceIp = r'.tokenId ++ Ascii.bar :: r'.sourceIp)
      ∧ (Ascii.bar ∉ r.tokenId ∧ Ascii.bar ∉ r'.tokenId
          ∨ Ascii.bar ∉ r.sourceIp ∧ Ascii.bar ∉ r'.sourceIp →
        r.canonical nonce = r'.canonical nonce' → r = r' ∧ nonce = nonce')
      ∧ (nonce ≠ nonce' → r.canonical nonce ≠ r'.canonical nonce') := by
  rw [canonical_eq_iff]
  refine ⟨?_, ?_, ?_⟩
  · constructor
    · rintro ⟨horigin, hremainder⟩
      obtain ⟨hevents, hbytes, htime, hnonce⟩ := remainder_inj hremainder
      exact ⟨hevents, hbytes, htime, hnonce, horigin⟩
    · rintro ⟨hevents, hbytes, htime, hnonce, horigin⟩
      refine ⟨horigin, ?_⟩
      rw [remainder, remainder, hevents, hbytes, htime, hnonce]
  · rintro hbars ⟨horigin, hremainder⟩
    obtain ⟨htoken, hip⟩ := origin_inj horigin hbars
    obtain ⟨hevents, hbytes, htime, hnonce⟩ := remainder_inj hremainder
    refine ⟨?_, hnonce⟩
    cases r
    cases r'
    simp_all only
  · intro hne h
    obtain ⟨-, hremainder⟩ := (canonical_eq_iff r r' nonce nonce').mp h
    exact hne (remainder_inj hremainder).2.2.2

/-- A receipt of a batch with 42 events of 8192 bytes, at the epoch. -/
def batchAtEpoch (token ip : String) : Receipt := ⟨Bytes.ascii token, Bytes.ascii ip, 42, 8192, .epoch⟩

/-- A bar that moves from the token to the address leaves the text as it is; a bar in the address alone does
not hide the token, nor do two tokens with the bar hide the nonce. -/
theorem canonical_decodable_moved_bar :
    (batchAtEpoch "hec|1" "10.0.0.1").canonical (.zero 16)
        = (batchAtEpoch "hec" "1|10.0.0.1").canonical (.zero 16)
      ∧ (batchAtEpoch "hec" "1|10.0.0.1").canonical (.zero 16)
        ≠ (batchAtEpoch "hec-2" "1|10.0.0.1").canonical (.zero 16)
      ∧ (batchAtEpoch "hec|1" "10.0.0.1").canonical (.zero 16)
        ≠ (batchAtEpoch "hec" "1|10.0.0.1").canonical (.replicate 16 1) := by
  refine ⟨?_, ?_, ?_⟩
  · exact (canonical_decodable _ _ _ _).1.mpr ⟨rfl, rfl, rfl, rfl, by decide⟩
  · intro h
    obtain ⟨hsame, -⟩ := (canonical_decodable _ _ _ _).2.1 (.inl ⟨by decide, by decide⟩) h
    exact absurd (congrArg Receipt.tokenId hsame) (by decide)
  · exact (canonical_decodable _ _ _ _).2.2 (by decide)

end Receipt

end SignedAudit
