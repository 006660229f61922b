import SignedAudit.Trail
import SignedAudit.Proofs.InstantRoundTrip
import SignedAudit.Proofs.JsonReading
import SignedAudit.Proofs.Payload

namespace SignedAudit

/-! # The JSON form of a record tells the whole record

The JSON form has a place for every field. A place that is optional stays empty when its value is, and
the reader takes a member that it does not find for an empty value. So reading gives back all texts, the
metadata, and the time as it is written; and the time itself as far as instants can be read. The names of
the places differ, and what a value holds is escaped, so that no value passes for a member. -/

open Bytes

/-! ## Metadata from their entries -/

namespace Metadata

@[ext] theorem ext {m n : Metadata} (h : m.entries = n.entries) : m = n := by
  cases m
  cases n
  simp only at h
  subst h
  rfl

/-- A key behind all others is assigned at the end. -/
theorem assignEntry_of_forall_lt {key : Bytes} (value : Bytes) {entries : List (Bytes × Bytes)}
    (h : ∀ x ∈ entries, x.1 < key) : assignEntry key value entries = entries ++ [(key, value)] := by
  induction entries with
  | nil => rfl
  | cons x rest ih =>
      have hx : x.1 < key := h x List.mem_cons_self
      have hrest := ih fun y hy => h y (List.mem_cons_of_mem x hy)
      rw [assignEntry, if_neg (List.lt_asymm hx), if_pos hx, hrest]
      rfl

/-- Assignments in the order of their keys are appended. -/
theorem entries_foldl_assign (m : Metadata) (l : List (Bytes × Bytes))
    (h : (m.entries ++ l).Pairwise fun x y => x.1 < y.1) :
    (l.foldl (fun m x => m.assign x.1 x.2) m).entries = m.entries ++ l := by
  induction l generalizing m with
  | nil => exact (List.append_nil _).symm
  | cons x l ih =>
      have hx : (m.assign x.1 x.2).entries = m.entries ++ [x] := by
        apply assignEntry_of_forall_lt
        intro y hy
        exact (List.pairwise_append.mp h).2.2 y hy x List.mem_cons_self
      rw [List.foldl_cons, ih, hx, List.append_assoc]
      · rfl
      · rw [hx, List.append_assoc]
        exact h

/-- **Metadata are what their entries assign.** -/
theorem ofAssignments_entries (m : Metadata) : ofAssignments m.entries = m := by
  apply Metadata.ext
  rw [ofAssignments, entries_foldl_assign]
  · rfl
  · exact m.sorted

end Metadata

namespace Record

/-! ## The places for members -/

/-- What the value of a member stands for. -/
def memberValue : Bytes ⊕ Metadata → Json.Value
  | .inl text => .text text
  | .inr metadata => .object (metadata.entries.map fun x => (x.1, .text x.2))

theorem writes_writeValue (v : Bytes ⊕ Metadata) : Json.Writes (writeValue v) (memberValue v) := by
  cases v with
  | inl text => exact Json.writes_quoted text
  | inr metadata => exact Json.writes_object metadata.entries fun m _ => Json.writes_quoted m.2

theorem isPrintable_writeValue (v : Bytes ⊕ Metadata) : Json.IsPrintable (writeValue v) := by
  cases v with
  | inl text => exact Json.isPrintable_quoted text
  | inr metadata =>
      apply Json.isPrintable_object
      intro member hmember
      obtain ⟨x, -, rfl⟩ := List.mem_map.mp hmember
      exact Json.isPrintable_member x.1 (Json.isPrintable_quoted x.2)

/-- Members with their values make a printable object. -/
theorem isPrintable_object_members (members : List (Bytes × (Bytes ⊕ Metadata))) :
    Json.IsPrintable (Json.object (members.map fun m => Json.member m.1 (writeValue m.2))) := by
  apply Json.isPrintable_object
  intro member hmember
  obtain ⟨m, -, rfl⟩ := List.mem_map.mp hmember
  exact Json.isPrintable_member m.1 (isPrintable_writeValue m.2)

/-- A place for a member. -/
structure Slot where
  name : Bytes
  optional : Bool
  value : Bytes ⊕ Metadata

namespace Slot

/-- Is there nothing in the value? -/
def isEmpty (s : Slot) : Bool :=
  match s.value with
  | .inl text => text.isEmpty
  | .inr metadata => metadata.entries.isEmpty

/-- The member at a place; there is none at an optional place for an empty value. -/
def members (s : Slot) : List (Bytes × (Bytes ⊕ Metadata)) :=
  if s.optional && s.isEmpty then [] else [(s.name, s.value)]

/-- The members at places, with what they stand for. -/
def values (slots : List Slot) : List (Bytes × Json.Value) :=
  (slots.flatMap members).map fun m => (m.1, memberValue m.2)

theorem values_cons (s : Slot) (slots : List Slot) :
    values (s :: slots) = values [s] ++ values slots := by
  unfold values
  rw [List.flatMap_cons, List.map_append, List.flatMap_singleton]

/-- Nothing is found under a name that no place has. -/
theorem lookup_values_eq_none {slots : List Slot} {name : Bytes} (h : ∀ s ∈ slots, s.name ≠ name) :
    (values slots).lookup name = none := by
  rw [List.lookup_eq_none_iff]
  intro x hx
  obtain ⟨m, hm, rfl⟩ := List.mem_map.mp hx
  obtain ⟨s, hs, hm⟩ := List.mem_flatMap.mp hm
  unfold members at hm
  split at hm
  · cases hm
  · rw [List.mem_singleton.mp hm, bne_iff_ne]
    exact (h s hs).symm

theorem lookup_values_singleton (s : Slot) :
    (values [s]).lookup s.name = if s.optional && s.isEmpty then none else some (memberValue s.value) := by
  unfold values
  rw [List.flatMap_singleton, members]
  split
  · rfl
  · exact List.lookup_cons_self

/-- **What is found under the name of a place** is the value for it, or nothing if it is left out. -/
theorem lookup_values {slots : List Slot} (hnodup : (slots.map name).Nodup) {s : Slot} (hs : s ∈ slots) :
    (values slots).lookup s.name = if s.optional && s.isEmpty then none else some (memberValue s.value) := by
  induction slots with
  | nil => cases hs
  | cons first slots ih =>
      obtain ⟨hfirst, hnodup⟩ := List.nodup_cons.mp hnodup
      rw [values_cons, List.lookup_append]
      obtain rfl | hs := List.mem_cons.mp hs
      · -- no other place has this name
        have hothers : (values slots).lookup s.name = none := by
          apply lookup_values_eq_none
          intro t ht hname
          apply hfirst
          rw [← hname]
          exact List.mem_map_of_mem ht
        rw [lookup_values_singleton, hothers, Option.or_none]
      · have hother : (values [first]).lookup s.name = none := by
          apply lookup_values_eq_none
          intro t ht hname
          rw [List.mem_singleton.mp ht] at hname
          apply hfirst
          rw [hname]
          exact List.mem_map_of_mem hs
        rw [hother, Option.none_or, ih hnodup hs]

end Slot

/-- The places of the JSON form. -/
def slots (r : Record) : List Slot := [
  ⟨ascii "id", false, .inl r.id⟩,
  ⟨ascii "timestamp", false, .inl r.time.canonicalText⟩,
  ⟨ascii "actor_type", false, .inl r.actorType⟩,
  ⟨ascii "actor_id", false, .inl r.actorId⟩,
  ⟨ascii "actor_username", true, .inl r.actorUsername⟩,
  ⟨ascii "action", false, .inl r.action⟩,
  ⟨ascii "resource", false, .inl r.resource⟩,
  ⟨ascii "resource_id", true, .inl r.resourceId⟩,
  ⟨ascii "ip_address", false, .inl r.ipAddress⟩,
  ⟨ascii "user_agent", true, .inl r.userAgent⟩,
  ⟨ascii "result", false, .inl r.result⟩,
  ⟨ascii "reason", true, .inl r.reason⟩,
  ⟨ascii "metadata", true, .inr r.metadata⟩,
  ⟨ascii "signature", false, .inl r.signature⟩]

theorem nodup_slots (r : Record) : (r.slots.map Slot.name).Nodup := by
  show List.Nodup [ascii "id", ascii "timestamp", ascii "actor_type", ascii "actor_id",
    ascii "actor_username", ascii "action", ascii "resource", ascii "resource_id", ascii "ip_address",
    ascii "user_agent", ascii "result", ascii "reason", ascii "metadata", ascii "signature"]
  decide

/-- An optional text is written where its place is not left out. -/
theorem optionalMember_eq (name : String) (text : Bytes) :
    optionalMember name text
      = (Slot.members ⟨ascii name, true, .inl text⟩).map fun m => Json.member m.1 (writeValue m.2) := by
  cases text <;> rfl

theorem metadata_eq (m : Metadata) :
    (if m.entries = [] then [] else [metadataMember m])
      = (Slot.members ⟨ascii "metadata", true, .inr m⟩).map fun m => Json.member m.1 (writeValue m.2) := by
  obtain ⟨_ | ⟨x, rest⟩, hsorted⟩ := m <;> rfl

/-- **The JSON form is the object of what stands at its places.** -/
theorem toJson_eq_object (r : Record) :
    r.toJson = Json.object ((r.slots.flatMap Slot.members).map fun m => Json.member m.1 (writeValue m.2)) := by
  unfold toJson
  rw [optionalMember_eq, optionalMember_eq, optionalMember_eq, optionalMember_eq, metadata_eq]
  simp only [slots, List.flatMap_cons, List.flatMap_nil, List.map_append, List.append_assoc,
    List.append_nil]
  rfl

/-! ## Reading it back -/

/-- What the JSON form of a record tells, with the time as it is written. -/
structure Transcript extends Entry where
  id : Bytes
  timestamp : Bytes
  signature : Bytes

/-- The text of a member; it is empty if there is no such member. -/
def textOf? (members : List (Bytes × Json.Value)) (name : String) : Option Bytes :=
  match members.lookup (ascii name) with
  | none => some []
  | some (.text t) => some t
  | some _ => none

/-- A member with a text, as an assignment. -/
def assignment? (m : Bytes × Json.Value) : Option (Bytes × Bytes) :=
  match m.2 with
  | .text t => some (m.1, t)
  | _ => none

/-- The metadata among members; they are empty if there is no such member. -/
def metadataOf? (members : List (Bytes × Json.Value)) : Option Metadata :=
  match members.lookup (ascii "metadata") with
  | none => some .empty
  | some (.object entries) => (entries.mapM assignment?).map Metadata.ofAssignments
  | some _ => none

/-- Reads the members of a record. -/
def Transcript.ofMembers? (members : List (Bytes × Json.Value)) : Option Transcript := do
  return {
    id := ← textOf? members "id"
    timestamp := ← textOf? members "timestamp"
    actorType := ← textOf? members "actor_type"
    actorId := ← textOf? members "actor_id"
    actorUsername := ← textOf? members "actor_username"
    action := ← textOf? members "action"
    resource := ← textOf? members "resource"
    resourceId := ← textOf? members "resource_id"
    ipAddress := ← textOf? members "ip_address"
    userAgent := ← textOf? members "user_agent"
    result := ← textOf? members "result"
    reason := ← textOf? members "reason"
    metadata := ← metadataOf? members
    signature := ← textOf? members "signature" }

/-- Reads the JSON form of a record, and leaves the time as it is written. -/
def Transcript.ofJson? (text : Bytes) : Option Transcript :=
  match Json.read? text with
  | some (.object members) => ofMembers? members
  | _ => none

/-- Reads the JSON form of a record. -/
def ofJson? (text : Bytes) : Option Record := do
  let t ← Transcript.ofJson? text
  match Instant.parse t.timestamp with
  | .ok time => some { toEntry := t.toEntry, id := t.id, time, signature := t.signature }
  | .error _ => none

/-- The text for a place is read, also where it is empty and left out. -/
theorem textOf?_slots (r : Record) (i : Nat) {name : String} {optional : Bool} {text : Bytes}
    (h : r.slots[i]? = some ⟨ascii name, optional, .inl text⟩) :
    textOf? (Slot.values r.slots) name = some text := by
  unfold textOf?
  rw [Slot.lookup_values r.nodup_slots (List.mem_of_getElem? h)]
  cases optional <;> cases text <;> rfl

theorem mapM_assignment? (entries : List (Bytes × Bytes)) :
    (entries.map fun x => (x.1, Json.Value.text x.2)).mapM assignment? = some entries := by
  induction entries with
  | nil => rfl
  | cons x entries ih =>
      rw [List.map_cons, List.mapM_cons, ih]
      rfl

theorem metadataOf?_slots (r : Record) : metadataOf? (Slot.values r.slots) = some r.metadata := by
  have hslot : r.slots[12]? = some ⟨ascii "metadata", true, .inr r.metadata⟩ := rfl
  have hmem := List.mem_of_getElem? hslot
  unfold metadataOf?
  rw [Slot.lookup_values r.nodup_slots hmem]
  generalize r.metadata = metadata
  obtain ⟨_ | ⟨x, rest⟩, hsorted⟩ := metadata
  · rfl
  · show (((x :: rest).map fun x => (x.1, Json.Value.text x.2)).mapM assignment?).map
      Metadata.ofAssignments = _
    rw [mapM_assignment?, Option.map_some]
    exact congrArg some (Metadata.ofAssignments_entries ⟨x :: rest, hsorted⟩)

/-- **All fields are read back from the places.** -/
theorem Transcript.ofMembers?_slots (r : Record) :
    Transcript.ofMembers? (Slot.values r.slots)
      = some ⟨r.toEntry, r.id, r.time.canonicalText, r.signature⟩ := by
  unfold ofMembers?
  rw [textOf?_slots r 0 rfl, textOf?_slots r 1 rfl, textOf?_slots r 2 rfl, textOf?_slots r 3 rfl,
    textOf?_slots r 4 rfl, textOf?_slots r 5 rfl, textOf?_slots r 6 rfl, textOf?_slots r 7 rfl,
    textOf?_slots r 8 rfl, textOf?_slots r 9 rfl, textOf?_slots r 10 rfl, textOf?_slots r 11 rfl,
    metadataOf?_slots, textOf?_slots r 13 rfl]
  rfl

/-! ## Nothing is lost -/

/-- An object of members with their values is read as the object of what these stand for. -/
theorem read?_object_members (members : List (Bytes × (Bytes ⊕ Metadata))) :
    Json.read? (Json.object (members.map fun m => Json.member m.1 (writeValue m.2)))
      = some (.object (members.map fun m => (m.1, memberValue m.2))) := by
  apply Json.read?_eq_some
  exact Json.writes_object members fun m _ => writes_writeValue m.2

/-- **The JSON form is one JSON object**, and its members are those at the places. -/
theorem read?_toJson (r : Record) : Json.read? r.toJson = some (.object (Slot.values r.slots)) := by
  rw [toJson_eq_object, read?_object_members]
  rfl

theorem isPrintable_toJson (r : Record) : Json.IsPrintable r.toJson := by
  rw [toJson_eq_object]
  exact isPrintable_object_members _

theorem isPrintable_payload (r : Record) : Json.IsPrintable r.payload := by
  rw [payload_eq_object]
  exact isPrintable_object_members _

/-- **Everything but the time is read back**, and the time as it is written. -/
theorem Transcript.ofJson?_toJson (r : Record) :
    Transcript.ofJson? r.toJson = some ⟨r.toEntry, r.id, r.time.canonicalText, r.signature⟩ := by
  unfold ofJson?
  rw [read?_toJson]
  exact ofMembers?_slots r

/-- What is read back as a record is the record itself, and it is read back when its time can be. -/
theorem ofJson?_toJson_eq_some_iff (r r' : Record) :
    ofJson? r.toJson = some r' ↔ r' = r ∧ r.time.IsReadable := by
  unfold ofJson?
  rw [Transcript.ofJson?_toJson, Option.bind_eq_bind, Option.bind_some]
  dsimp only
  by_cases hreadable : r.time.IsReadable
  · rw [Instant.parse_canonicalText_of_isReadable hreadable]
    constructor
    · intro h
      exact ⟨(Option.some.inj h).symm, hreadable⟩
    · rintro ⟨rfl, -⟩
      rfl
  · rw [Instant.parse_canonicalText_of_not_isReadable hreadable]
    constructor
    · intro h
      cases h
    · rintro ⟨-, h⟩
      exact absurd h hreadable

theorem toJson_injective : Function.Injective toJson := by
  intro r r' h
  have hread := congrArg Transcript.ofJson? h
  rw [Transcript.ofJson?_toJson, Transcript.ofJson?_toJson, Option.some.injEq,
    Transcript.mk.injEq] at hread
  obtain ⟨hentry, hid, htime, hsignature⟩ := hread
  cases r
  cases r'
  cases hentry
  cases hid
  cases Instant.canonicalText_injective htime
  cases hsignature
  rfl

/-- **The JSON form is lossless.** It is one JSON object without a byte below the space. Reading it, with
members that are not there taken for empty ones, gives back every text of the record, its metadata and
the canonical text of its time; and the time itself, and so the record, where the time can be read. So
different records have different JSON forms, and what is read back is verified as the original is. -/
theorem toJson_lossless :
    (∀ r : Record,
      (∃ members, Json.read? r.toJson = some (.object members))
        ∧ (∀ b ∈ r.toJson, 0x20 ≤ b)
        ∧ Transcript.ofJson? r.toJson = some ⟨r.toEntry, r.id, r.time.canonicalText, r.signature⟩
        ∧ (-9223372036000000000 ≤ r.time.ns ∧ r.time.ns ≤ 9223372035999999999 →
          Instant.parse r.time.canonicalText = .ok r.time ∧ ofJson? r.toJson = some r))
      ∧ (∀ r r' : Record, r.toJson = r'.toJson → r = r')
      ∧ ∀ r r' : Record, ofJson? r.toJson = some r' → ∀ (trail : Trail) (s : System),
        (trail.verify r').perform s = (trail.verify r).perform s := by
  refine ⟨?_, toJson_injective, ?_⟩
  · intro r
    refine ⟨⟨_, read?_toJson r⟩, isPrintable_toJson r, Transcript.ofJson?_toJson r, ?_⟩
    intro hreadable
    exact ⟨Instant.parse_canonicalText_of_isReadable hreadable,
      (ofJson?_toJson_eq_some_iff r r).mpr ⟨rfl, hreadable⟩⟩
  · intro r r' hread trail s
    rw [((ofJson?_toJson_eq_some_iff r r').mp hread).1]

/-- A record whose actor bears the name of a member and its value. -/
def imitation : Record := { actorId := ascii "alice\",\"action\":\"login", id := ascii "id" }

/-- A name that looks like a member is read back as a name, and not as that member. -/
theorem toJson_lossless_of_imitation :
    ofJson? imitation.toJson = some imitation
      ∧ imitation.toJson
        ≠ toJson { actorId := ascii "alice", action := ascii "login", id := ascii "id" }
      ∧ ∀ (trail : Trail) (s : System) (r : Record), ofJson? imitation.toJson = some r →
        (trail.verify r).perform s = (trail.verify imitation).perform s := by
  obtain ⟨hread, hinjective, hverified⟩ := toJson_lossless
  obtain ⟨-, -, -, hback⟩ := hread imitation
  obtain ⟨-, hrecord⟩ := hback (by decide)
  refine ⟨hrecord, ?_, ?_⟩
  · intro h
    have hactor := congrArg (fun r => r.actorId) (hinjective _ _ h)
    exact absurd hactor (by decide)
  · intro trail s r hr
    exact hverified imitation r hr trail s

end Record

end SignedAudit
