import Mathlib.Tactic.Common
import SignedAudit.SecureBuffer

namespace SignedAudit

/-! # Making buffers

The number of bytes of a buffer is the product of its number of elements and their size, in words of 64 bits.
Where a buffer is made, that product does not wrap around; it is a multiple of the alignment already, so that
rounding it up neither pads nor overflows. What memory hands out is zeroed before it is seen. So making a buffer
comes down to four cases. -/

/-! ## Sizes -/

namespace Width

theorem toNat_word (w : Width) : w.word.toNat = w.bytes := by cases w <;> rfl

theorem bytes_pos (w : Width) : 0 < w.bytes := by cases w <;> decide

variable {w : Width} {n : UInt64}

/-- The division by which a buffer is refused tells exactly that the product is no word. -/
theorem greatestSize_div_word_lt_iff : greatestSize / w.word < n ↔ UInt64.size ≤ n.toNat * w.bytes := by
  have hgreatest : greatestSize.toNat = UInt64.size - 1 := rfl
  have hpos : 0 < UInt64.size := by decide
  rw [UInt64.lt_iff_toNat_lt, UInt64.toNat_div, toNat_word, hgreatest, Nat.div_lt_iff_lt_mul w.bytes_pos]
  omega

theorem toNat_mul_word (h : n.toNat * w.bytes < UInt64.size) : (n * w.word).toNat = n.toNat * w.bytes := by
  rw [UInt64.toNat_mul, toNat_word, Nat.mod_eq_of_lt h]

theorem mul_word_eq_zero_iff (h : n.toNat * w.bytes < UInt64.size) : n * w.word = 0 ↔ n = 0 := by
  rw [← UInt64.toNat_inj, toNat_mul_word h, ← UInt64.toNat_inj, UInt64.toNat_zero, Nat.mul_eq_zero]
  exact or_iff_left (Nat.ne_of_gt w.bytes_pos)

/-- A whole number of elements needs no padding. -/
theorem roundUp_mul_word (h : n.toNat * w.bytes < UInt64.size) :
    w.roundUp (n * w.word) = .ok (n * w.word) := by
  have hrest : n * w.word % w.word = 0 := by
    rw [← UInt64.toNat_inj, UInt64.toNat_mod, toNat_mul_word h, toNat_word, Nat.mul_mod_left]
    rfl
  simp only [roundUp, hrest, if_true, ite_self]

end Width

/-! ## Blocks -/

theorem Memory.overwrite_zero {b data : Bytes} (h : data.length = b.length) : overwrite b 0 data = data := by
  simp [overwrite, h]

/-- A block of zeros. -/
def Block.zeros (count : Nat) (locked : Bool) : Block := ⟨List.replicate count 0, locked⟩

@[simp] theorem Block.length_zeros (count : Nat) (locked : Bool) : (zeros count locked).bytes.length = count :=
  List.length_replicate

namespace Heap

variable {h : Heap} {address : Nat} {block : Block}

@[simp] theorem blocks_put (h : Heap) (address : Nat) (block : Option Block) (a : Nat) :
    (h.put address block).blocks a = if a = address then block else h.blocks a := rfl

@[simp] theorem returned_put (h : Heap) (address : Nat) (block : Option Block) :
    (h.put address block).returned = h.returned := rfl

theorem put_put (h : Heap) (address : Nat) (first second : Option Block) :
    (h.put address first).put address second = h.put address second := by
  simp only [put]
  congr 1
  funext a
  by_cases ha : a = address <;> simp [ha]

theorem put_eq_self (hlive : h.blocks address = some block) : h.put address (some block) = h := by
  have hblocks : (fun a => if a = address then some block else h.blocks a) = h.blocks := by
    funext a
    by_cases ha : a = address <;> simp [ha, hlive]
  rw [put, hblocks]

theorem write_of_live (hlive : h.blocks address = some block) {offset : Nat} {data : Bytes}
    (hroom : offset + data.length ≤ block.bytes.length) :
    h.write address offset data
      = h.put address (some { block with bytes := Memory.overwrite block.bytes offset data }) := by
  simp only [write, hlive, if_pos hroom]

theorem wipe_of_live (hlive : h.blocks address = some block) :
    h.wipe address block.bytes.length
      = h.put address (some (.zeros block.bytes.length block.locked)) := by
  rw [wipe, write_of_live hlive (by simp), Memory.overwrite_zero (by simp), Block.zeros]

theorem setLock_of_live (hlive : h.blocks address = some block) (locked : Bool) :
    h.setLock address locked = h.put address (some { block with locked }) := by
  simp only [setLock, hlive]

/-- The system locks a block that is not empty if it grants that. -/
theorem lock_of_live (hlive : h.blocks address = some block) (hne : block.bytes ≠ []) :
    h.lock address block.bytes.length
      = if h.grantsLock address then (.locked, h.put address (some { block with locked := true }))
        else (.bestEffort, h) := by
  have hread : h.read address block.bytes.length = block.bytes := by simp [read, hlive]
  cases hgrants : h.grantsLock address <;>
    simp [lock, hread, Memory.lock, hne, Memory.lockSupported, hgrants, setLock_of_live hlive]

@[simp] theorem blocks_add (h : Heap) (block : Block) (a : Nat) :
    (h.add block).blocks a = if a = h.nextAddress then some block else h.blocks a := rfl

theorem put_add (h : Heap) (first second : Block) :
    (h.add first).put h.nextAddress (some second) = h.add second := by
  simp only [add, put]
  congr 1
  funext a
  by_cases ha : a = h.nextAddress <;> simp [ha]

/-- Whatever a new block holds, it is zeroed, and locked if the system grants that. -/
theorem lock_wipe_allocate (h : Heap) {available count : Nat} (hcount : 0 < count) (hroom : count ≤ available) :
    ∃ grown, h.allocate available count = some (h.nextAddress, grown) ∧
      (grown.wipe h.nextAddress count).lock h.nextAddress count
        = (if h.grantsLock h.nextAddress then .locked else .bestEffort,
            h.add (.zeros count (h.grantsLock h.nextAddress))) := by
  refine ⟨_, if_neg (Nat.not_lt.mpr hroom), ?_⟩
  have hwipe : (h.add ⟨(List.range count).map (h.debris h.nextAddress), false⟩).wipe h.nextAddress count
      = h.add (.zeros count false) := by
    have hwipe := wipe_of_live (h := h.add ⟨(List.range count).map (h.debris h.nextAddress), false⟩) (if_pos rfl)
    simpa only [List.length_map, List.length_range, put_add] using hwipe
  have hne : (Block.zeros count false).bytes ≠ [] := List.ne_nil_of_length_pos (by simpa using hcount)
  have hlock := lock_of_live (h := h.add (.zeros count false)) (if_pos rfl) hne
  simp only [Block.length_zeros, put_add] at hlock
  rw [hwipe, hlock]
  cases hgrants : h.grantsLock h.nextAddress <;> simp [add, put, Block.zeros, hgrants]

end Heap

/-! ## Making a buffer -/

namespace Handle

/-- The handle of the next block that memory hands out. -/
def next (h : Heap) (width : Width) (n : UInt64) : Handle where
  pointer := some h.nextAddress
  size := n
  allocated := n * width.word
  locked := h.grantsLock h.nextAddress

/-- **Making a buffer**: it is refused exactly when its number of bytes is no word; it needs no memory when it
has no elements; and otherwise memory either has no room for it, or hands out a block of that many zeros. -/
theorem zeroed_eq (available : Nat) (width : Width) (n : UInt64) (heap : Heap) :
    zeroed available width n heap
      = if UInt64.size ≤ n.toNat * width.bytes then .error .length
        else if n = 0 then .ok ({}, heap)
        else if available < n.toNat * width.bytes then .error .memory
        else .ok (next heap width n,
          heap.add (.zeros (n.toNat * width.bytes) (heap.grantsLock heap.nextAddress))) := by
  by_cases hlength : UInt64.size ≤ n.toNat * width.bytes
  · have hpos : 0 < n := by
      rw [UInt64.lt_iff_toNat_lt]
      exact Nat.pos_of_ne_zero fun h => by
        rw [h, Nat.zero_mul] at hlength
        exact absurd hlength (by decide)
    rw [zeroed, if_pos ⟨hpos, Width.greatestSize_div_word_lt_iff.mpr hlength⟩, if_pos hlength]
  have hfits : n.toNat * width.bytes < UInt64.size := Nat.lt_of_not_le hlength
  rw [zeroed, if_neg fun h => hlength (Width.greatestSize_div_word_lt_iff.mp h.2), if_neg hlength]
  by_cases hzero : n = 0
  · subst hzero
    rw [UInt64.zero_mul]
    rfl
  have hbytes : n * width.word ≠ 0 := fun h => hzero ((Width.mul_word_eq_zero_iff hfits).mp h)
  have hpos : 0 < n.toNat * width.bytes := by
    rw [← Width.toNat_mul_word hfits]
    exact Nat.pos_of_ne_zero fun h => hbytes (UInt64.toNat_inj.mp h)
  simp only [if_neg hbytes, if_neg hzero, Width.roundUp_mul_word hfits, bind, Except.bind,
    Width.toNat_mul_word hfits]
  by_cases hroom : available < n.toNat * width.bytes
  · simp only [Heap.allocate, if_pos hroom]
  · obtain ⟨grown, hallocate, hlock⟩ := heap.lock_wipe_allocate hpos (Nat.le_of_not_lt hroom)
    simp only [hallocate, hlock, if_neg hroom, Memory.lockSupported, if_true, next]
    cases heap.grantsLock heap.nextAddress <;> rfl

theorem zeroed_eq_length_iff {available : Nat} {width : Width} {n : UInt64} {heap : Heap} :
    zeroed available width n heap = .error .length ↔ greatestSize.toNat < n.toNat * width.bytes := by
  have hword : greatestSize.toNat < n.toNat * width.bytes ↔ UInt64.size ≤ n.toNat * width.bytes := Iff.rfl
  rw [hword, zeroed_eq]
  split
  next hlength => exact iff_of_true rfl hlength
  next hlength =>
    refine iff_of_false ?_ hlength
    split
    · exact nofun
    split <;> exact nofun

end Handle

end SignedAudit
