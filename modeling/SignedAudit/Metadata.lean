import SignedAudit.Bytes

namespace SignedAudit

/-! # Metadata

Keys with one value each, kept in the order of the keys as byte strings; that the keys increase strictly is
part of the type. Assigning to a key replaces its value, so the order of assignments to different keys
leaves no trace. -/

/-- A finite map of byte strings, sorted by key. -/
structure Metadata where
  entries : List (Bytes × Bytes)
  sorted : entries.Pairwise fun x y => x.1 < y.1

namespace Metadata

/-- The map without entries. -/
def empty : Metadata := ⟨[], .nil⟩

/-- Puts a value for a key into sorted entries. -/
def assignEntry (key value : Bytes) : List (Bytes × Bytes) → List (Bytes × Bytes)
  | [] => [(key, value)]
  | (k, v) :: rest =>
    if key < k then (key, value) :: (k, v) :: rest
    else if k < key then (k, v) :: assignEntry key value rest
    else (key, value) :: rest

theorem mem_assignEntry {key value : Bytes} {x : Bytes × Bytes} :
    ∀ {entries : List (Bytes × Bytes)}, x ∈ assignEntry key value entries →
      x = (key, value) ∨ x ∈ entries
  | [], h => by simpa [assignEntry] using h
  | (k, v) :: rest, h => by
    unfold assignEntry at h
    split at h
    · simpa using h
    · split at h
      · rcases List.mem_cons.mp h with rfl | h
        · exact Or.inr List.mem_cons_self
        · exact (mem_assignEntry h).imp id (List.mem_cons_of_mem _)
      · rcases List.mem_cons.mp h with rfl | h
        · exact Or.inl rfl
        · exact Or.inr (List.mem_cons_of_mem _ h)

theorem pairwise_assignEntry (key value : Bytes) :
    ∀ {entries : List (Bytes × Bytes)}, entries.Pairwise (fun x y => x.1 < y.1) →
      (assignEntry key value entries).Pairwise fun x y => x.1 < y.1
  | [], _ => by simp [assignEntry]
  | (k, v) :: rest, h => by
    obtain ⟨hk, hrest⟩ := List.pairwise_cons.mp h
    unfold assignEntry
    split
    · rename_i hlt
      refine List.pairwise_cons.mpr ⟨fun y hy => ?_, h⟩
      rcases List.mem_cons.mp hy with rfl | hy
      · exact hlt
      · exact List.lt_trans hlt (hk y hy)
    · split
      · rename_i _ hlt
        refine List.pairwise_cons.mpr ⟨fun y hy => ?_, pairwise_assignEntry key value hrest⟩
        rcases mem_assignEntry hy with rfl | hy
        · exact hlt
        · exact hk y hy
      · rename_i hnot hnot'
        have heq : key = k := List.le_antisymm (List.not_lt.mp hnot') (List.not_lt.mp hnot)
        exact List.pairwise_cons.mpr ⟨fun y hy => heq ▸ hk y hy, hrest⟩

/-- Gives a key a value. -/
def assign (m : Metadata) (key value : Bytes) : Metadata :=
  ⟨assignEntry key value m.entries, pairwise_assignEntry key value m.sorted⟩

/-- The map that assignments leave, made one after the other. -/
def ofAssignments (assignments : List (Bytes × Bytes)) : Metadata :=
  assignments.foldl (fun m x => m.assign x.1 x.2) empty

/-- The value of a key. -/
def get? (m : Metadata) (key : Bytes) : Option Bytes := m.entries.lookup key

end Metadata

end SignedAudit
