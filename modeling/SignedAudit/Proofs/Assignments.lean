import Mathlib.Data.List.Induction
import Mathlib.Data.List.Sort
import SignedAudit.Proofs.FileTree
import SignedAudit.Proofs.RecordJson

namespace SignedAudit

/-! # Metadata without the order of their assignment

Metadata are what is found under their keys. An assignment changes what is found under its key and nothing else,
so that assignments to different keys may change places, and of several to one key the last one counts. The
payload writes the entries in the order of their keys, byte after byte as numbers, and so there is one text for
each map, however the map was made. -/

open Bytes

/-! ## The order of byte strings -/

/-- **The order of bytes as numbers**: a text precedes another one that begins with it and goes on, and one that
has the greater byte where the two first differ. -/
inductive Bytes.Precedes : Bytes → Bytes → Prop
  | shorter (front : Bytes) (b : UInt8) (rest : Bytes) : Precedes front (front ++ b :: rest)
  | smaller (front : Bytes) {a b : UInt8} (h : a.toNat < b.toNat) (rest rest' : Bytes) :
      Precedes (front ++ a :: rest) (front ++ b :: rest')

/-- Metadata are sorted in the order of bytes as numbers. -/
theorem Bytes.precedes_of_lt {a b : Bytes} (h : a < b) : Precedes a b := by
  induction (h : List.Lex (· < ·) a b) with
  | @nil y rest' => exact .shorter [] y rest'
  | @rel x rest y rest' hbyte => exact .smaller [] (UInt8.lt_iff_toNat_lt.mp hbyte) rest rest'
  | @cons x rest rest' hrest ih =>
      -- a common first byte belongs to the common part
      cases ih with
      | shorter front b rest' => exact .shorter (x :: rest) b rest'
      | smaller front hbyte rest rest' => exact .smaller (x :: front) hbyte rest rest'

namespace Metadata

/-! ## What is found under a key -/

/-- The value that assignments leave under a key: that of the last one to it. -/
def lastAssigned? (assignments : List (Bytes × Bytes)) (key : Bytes) : Option Bytes :=
  assignments.reverse.lookup key

theorem lookup_assignEntry (key value other : Bytes) (entries : List (Bytes × Bytes)) :
    (assignEntry key value entries).lookup other
      = if other = key then some value else entries.lookup other := by
  induction entries with
  | nil => exact lookup_cons_eq_ite [] key value other
  | cons x rest ih =>
      obtain ⟨k, v⟩ := x
      unfold assignEntry
      split
      · exact lookup_cons_eq_ite ((k, v) :: rest) key value other
      · split
        · next hlt =>
            have hne : k ≠ key := by
              rintro rfl
              exact List.lt_irrefl k hlt
            rw [lookup_cons_eq_ite, lookup_cons_eq_ite, ih]
            by_cases hother : other = k <;> simp [hother, hne]
        · next hnot hnot' =>
            -- neither key comes before the other one, and so this entry gives way
            obtain rfl : key = k := List.le_antisymm (List.not_lt.mp hnot') (List.not_lt.mp hnot)
            rw [lookup_cons_eq_ite, lookup_cons_eq_ite]
            by_cases hother : other = key <;> simp [hother]

/-- **An assignment changes what is found under its key**, and nothing else. -/
theorem get?_assign (m : Metadata) (key value other : Bytes) :
    (m.assign key value).get? other = if other = key then some value else m.get? other :=
  lookup_assignEntry key value other m.entries

theorem ofAssignments_concat (l : List (Bytes × Bytes)) (key value : Bytes) :
    ofAssignments (l ++ [(key, value)]) = (ofAssignments l).assign key value := by
  rw [ofAssignments, List.foldl_concat]
  rfl

/-- **What assignments leave under a key is what the last one to it has put there.** -/
theorem get?_ofAssignments (l : List (Bytes × Bytes)) (key : Bytes) :
    (ofAssignments l).get? key = lastAssigned? l key := by
  induction l using List.reverseRecOn with
  | nil => rfl
  | append_singleton l x ih =>
      obtain ⟨k, v⟩ := x
      rw [ofAssignments_concat, get?_assign, ih, lastAssigned?, lastAssigned?, List.reverse_append,
        List.reverse_singleton, List.singleton_append, lookup_cons_eq_ite]

/-- The entries are what is found, because no two of them have one key. -/
theorem mem_entries_iff (m : Metadata) (key value : Bytes) :
    (key, value) ∈ m.entries ↔ m.get? key = some value := by
  rw [get?, List.lookup_eq_some_iff]
  constructor
  · intro h
    obtain ⟨front, rear, hsplit⟩ := List.append_of_mem h
    have hsorted := m.sorted
    rw [hsplit, List.pairwise_append] at hsorted
    refine ⟨front, rear, hsplit, fun x hx => ?_⟩
    have hlt : x.1 < key := hsorted.2.2 x hx _ List.mem_cons_self
    rw [bne_iff_ne]
    rintro rfl
    exact List.lt_irrefl _ hlt
  · rintro ⟨front, rear, hsplit, -⟩
    rw [hsplit]
    exact List.mem_append_right front List.mem_cons_self

/-- **Metadata are what is found under their keys.** -/
theorem eq_of_get?_eq {m n : Metadata} (h : ∀ key, m.get? key = n.get? key) : m = n := by
  have hirrefl : Std.Irrefl fun x y : Bytes × Bytes => x.1 < y.1 := ⟨fun x => List.lt_irrefl x.1⟩
  have hantisymm : Std.Antisymm fun x y : Bytes × Bytes => x.1 < y.1 :=
    ⟨fun x y hxy hyx => absurd hyx (List.lt_asymm hxy)⟩
  apply Metadata.ext
  apply m.sorted.eq_of_mem_iff n.sorted
  rintro ⟨key, value⟩
  rw [mem_entries_iff, mem_entries_iff, h]

theorem eq_iff_get?_eq (m n : Metadata) : m = n ↔ ∀ key, m.get? key = n.get? key :=
  ⟨fun h _ => by rw [h], eq_of_get?_eq⟩

/-- The metadata without the entry of a key. -/
def without (m : Metadata) (key : Bytes) : Metadata :=
  ⟨m.entries.filter (·.1 ≠ key), m.sorted.filter _⟩

theorem get?_without_self (m : Metadata) (key : Bytes) : (m.without key).get? key = none := by
  rw [get?, List.lookup_eq_none_iff]
  intro x hx
  have hother : x.1 ≠ key := by simpa using (List.mem_filter.mp hx).2
  exact bne_iff_ne.mpr hother.symm

/-- The keys stand in the order of bytes as numbers. -/
theorem precedes_entries (m : Metadata) : (m.entries.map Prod.fst).Pairwise Precedes :=
  List.pairwise_map.mpr (m.sorted.imp precedes_of_lt)

theorem nodup_keys (m : Metadata) : (m.entries.map Prod.fst).Nodup := by
  refine List.pairwise_map.mpr (m.sorted.imp fun hlt heq => ?_)
  rw [heq] at hlt
  exact List.lt_irrefl _ hlt

end Metadata

/-! ## Metadata in the payload -/

namespace Record

/-- The record with other metadata. -/
def withMetadata (r : Record) (metadata : Metadata) : Record := { r with metadata }

/-- **The payload tells the metadata.** -/
theorem payload_withMetadata_eq_iff (r : Record) (m n : Metadata) :
    (r.withMetadata m).payload = (r.withMetadata n).payload ↔ m = n := by
  constructor
  · intro h
    have hip : (r.withMetadata m).ipAddress = (r.withMetadata n).ipAddress := rfl
    exact congrArg (fun e : Entry => e.metadata) (toEntry_eq hip h)
  · rintro rfl
    rfl

/-- Read as JSON, the payload holds the metadata as an object, with the entries in their order. -/
theorem exists_read?_payload (r : Record) :
    ∃ members, Json.read? r.payload = some (.object members)
      ∧ members.lookup (ascii "metadata")
        = some (.object (r.metadata.entries.map fun x => (x.1, .text x.2))) := by
  refine ⟨r.payloadMembers.map fun m => (m.1, memberValue m.2), ?_, rfl⟩
  rw [payload_eq_object, read?_object_members]

/-- **The payload forgets the order of assignments.** Two lists of assignments give a record one payload exactly when
they leave the same value under every key. Whoever reads the payload as JSON finds the metadata as an object whose
names stand in the order of bytes as numbers, each once, with what the last assignment to each has left. A further
assignment that leaves another value than before, be it the first to its key or not, gives another payload; and so
does taking an entry out. -/
theorem payload_forgets_assignment_order (r : Record) :
    (∀ l l' : List (Bytes × Bytes),
      (r.withMetadata (.ofAssignments l)).payload = (r.withMetadata (.ofAssignments l')).payload
        ↔ ∀ key, Metadata.lastAssigned? l key = Metadata.lastAssigned? l' key)
      ∧ (∀ l : List (Bytes × Bytes), ∃ members, ∃ entries : List (Bytes × Bytes),
        Json.read? (r.withMetadata (.ofAssignments l)).payload = some (.object members)
          ∧ members.lookup (ascii "metadata") = some (.object (entries.map fun x => (x.1, .text x.2)))
          ∧ (entries.map Prod.fst).Pairwise Precedes
          ∧ (entries.map Prod.fst).Nodup
          ∧ ∀ key value, (key, value) ∈ entries ↔ Metadata.lastAssigned? l key = some value)
      ∧ (∀ (m : Metadata) (key value : Bytes), m.get? key ≠ some value →
        (r.withMetadata (m.assign key value)).payload ≠ (r.withMetadata m).payload)
      ∧ ∀ (m : Metadata) (key : Bytes), m.get? key ≠ none →
        (r.withMetadata (m.without key)).payload ≠ (r.withMetadata m).payload := by
  refine ⟨?_, ?_, ?_, ?_⟩
  · intro l l'
    simp only [payload_withMetadata_eq_iff, Metadata.eq_iff_get?_eq, Metadata.get?_ofAssignments]
  · intro l
    obtain ⟨members, hread, hmetadata⟩ := (r.withMetadata (.ofAssignments l)).exists_read?_payload
    refine ⟨members, (Metadata.ofAssignments l).entries, hread, hmetadata, Metadata.precedes_entries _,
      Metadata.nodup_keys _, ?_⟩
    intro key value
    rw [Metadata.mem_entries_iff, Metadata.get?_ofAssignments]
  · intro m key value hother heq
    -- what is found under the key would be the new value already
    rw [payload_withMetadata_eq_iff, Metadata.eq_iff_get?_eq] at heq
    apply hother
    rw [← heq key, Metadata.get?_assign, if_pos rfl]
  · intro m key hfound heq
    rw [payload_withMetadata_eq_iff, Metadata.eq_iff_get?_eq] at heq
    apply hfound
    rw [← heq key, Metadata.get?_without_self]

/-- Assignments to a key with a separator in it, to one with a great byte, and to the first again. -/
def reassignments : List (Bytes × Bytes) :=
  [(ascii "a\":\"", ascii "1"), ([0xff], ascii "2"), (ascii "a\":\"", ascii "3")]

/-- They leave what two of them leave in the other order, and the great byte comes last. -/
theorem payload_forgets_assignment_order_reassigned :
    (imitation.withMetadata (.ofAssignments reassignments)).payload
        = (imitation.withMetadata
          (.ofAssignments [(ascii "a\":\"", ascii "3"), ([0xff], ascii "2")])).payload
      ∧ (imitation.withMetadata ((Metadata.ofAssignments reassignments).without [0xff])).payload
        ≠ (imitation.withMetadata (.ofAssignments reassignments)).payload
      ∧ Precedes (ascii "a\":\"") [0xff] := by
  obtain ⟨hsame, -, -, hremoval⟩ := payload_forgets_assignment_order imitation
  refine ⟨(hsame _ _).mpr ?_, hremoval _ _ (by decide), ?_⟩
  · intro key
    have hne : ascii "a\":\"" ≠ [0xff] := by decide
    simp only [Metadata.lastAssigned?, reassignments, List.reverse_cons, List.reverse_nil, List.nil_append,
      List.cons_append, lookup_cons_eq_ite]
    by_cases hkey : key = ascii "a\":\"" <;> simp [hkey, hne]
  · exact .smaller [] (by decide) _ _

end Record

end SignedAudit
