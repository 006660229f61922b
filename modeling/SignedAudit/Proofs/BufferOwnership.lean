import SignedAudit.Proofs.BufferSizes

namespace SignedAudit

/-! # Who owns a block

Memory is shared by all buffers, yet each behaves as a value of its own: it holds what was last written to it,
and zeros where nothing was, wherever it has been moved to. The invariant that carries this over every operation
is that each block in use has one handle, which tells the truth about it. -/

/-! ## What was written to a buffer -/

/-- The number of elements of a buffer, and what was written to its bytes and where, the last write first. -/
structure History where
  size : Nat := 0
  writes : List (Nat × Bytes) := []

namespace History

/-- The byte that was last written at an offset, or zero. -/
def byte (h : History) (i : Nat) : UInt8 :=
  (h.writes.findSome? fun (offset, data) => if offset ≤ i then data[i - offset]? else none).getD 0

/-- The bytes of all elements. -/
def contents (h : History) (width : Width) : Bytes := (List.range (h.size * width.bytes)).map h.byte

/-- What a buffer shows that has this history. -/
def view (h : History) (width : Width) : SecureBuffer := ⟨h.size, h.contents width⟩

/-- The history with one more write. -/
def write (h : History) (offset : Nat) (data : Bytes) : History := { h with writes := (offset, data) :: h.writes }

@[simp] theorem length_contents (h : History) (width : Width) :
    (h.contents width).length = h.size * width.bytes := by
  simp [contents]

theorem getElem?_contents (h : History) (width : Width) (i : Nat) :
    (h.contents width)[i]? = if i < h.size * width.bytes then some (h.byte i) else none := by
  rw [contents, List.getElem?_map]
  by_cases hi : i < h.size * width.bytes
  · rw [List.getElem?_range hi, if_pos hi, Option.map_some]
  · rw [List.getElem?_eq_none (by simpa using hi), if_neg hi, Option.map_none]

theorem contents_of_size_eq_zero {h : History} (hsize : h.size = 0) (width : Width) : h.contents width = [] := by
  simp [contents, hsize]

/-- Where nothing was written there are zeros. -/
theorem contents_unwritten (size : Nat) (width : Width) :
    History.contents { size } width = List.replicate (size * width.bytes) 0 := by
  rw [contents, List.eq_replicate_iff]
  simp [byte]

theorem byte_write (h : History) (offset : Nat) (data : Bytes) (i : Nat) :
    (h.write offset data).byte i = if offset ≤ i then data[i - offset]?.getD (h.byte i) else h.byte i := by
  by_cases hi : offset ≤ i
  · cases hdata : data[i - offset]? <;> simp [byte, write, hi, hdata]
  · simp [byte, write, hi]

end History

theorem Memory.getElem?_overwrite {b data : Bytes} {offset : Nat} (hroom : offset + data.length ≤ b.length)
    (i : Nat) :
    (overwrite b offset data)[i]?
      = if offset ≤ i ∧ i < offset + data.length then data[i - offset]? else b[i]? := by
  have hfront : (b.take offset).length = offset := by
    rw [List.length_take]
    omega
  rw [overwrite, List.append_assoc]
  by_cases hbefore : i < offset
  · rw [List.getElem?_append_left (by omega), List.getElem?_take_of_lt hbefore, if_neg (by omega)]
  rw [List.getElem?_append_right (by omega), hfront]
  by_cases hwithin : i < offset + data.length
  · rw [List.getElem?_append_left (by omega), if_pos (by omega)]
  · rw [List.getElem?_append_right (by omega), List.getElem?_drop, if_neg (by omega)]
    congr 1
    omega

theorem Memory.overwrite_nil (b : Bytes) (offset : Nat) : overwrite b offset [] = b := by
  simp [overwrite]

namespace History

/-- A write to the history is one to the bytes, as far as there is room for it. -/
theorem contents_write (h : History) (width : Width) (offset : Nat) (data : Bytes) :
    (h.write offset data).contents width
      = Memory.overwrite (h.contents width) offset (data.take (h.size * width.bytes - offset)) := by
  by_cases hoffset : h.size * width.bytes ≤ offset
  · rw [Nat.sub_eq_zero_of_le hoffset, List.take_zero, Memory.overwrite_nil]
    refine List.map_congr_left fun i hi => ?_
    have hi : i < h.size * width.bytes := List.mem_range.mp hi
    rw [byte_write, if_neg (by omega)]
  have hroom : offset + (data.take (h.size * width.bytes - offset)).length ≤ (h.contents width).length := by
    rw [List.length_take, length_contents]
    omega
  refine List.ext_getElem? fun i => ?_
  rw [Memory.getElem?_overwrite hroom, List.length_take, getElem?_contents, getElem?_contents, byte_write]
  by_cases hi : i < h.size * width.bytes
  · rw [if_pos (show i < (h.write offset data).size * width.bytes from hi), if_pos hi]
    by_cases hafter : offset ≤ i
    · by_cases hwithin : i < offset + data.length
      · rw [if_pos hafter, if_pos (by omega), List.getElem?_take_of_lt (by omega),
          List.getElem?_eq_getElem (by omega), Option.getD_some]
      · rw [if_pos hafter, if_neg (by omega), List.getElem?_eq_none (by omega), Option.getD_none]
    · rw [if_neg hafter, if_neg (by omega)]
  · rw [if_neg (show ¬i < (h.write offset data).size * width.bytes from hi), if_neg (by omega), if_neg hi]

end History

/-! ## Handles that tell the truth -/

/-- A handle owns a block in use: it tells where the block is, how many bytes it has and whether it is locked, and
the bytes are those of its elements. -/
structure Handle.Owns (b : Handle) (width : Width) (heap : Heap) (address : Nat) (block : Block) : Prop where
  pointer : b.pointer = some address
  live : heap.blocks address = some block
  size_pos : 0 < b.size.toNat
  allocated : b.allocated.toNat = b.size.toNat * width.bytes
  length : block.bytes.length = b.allocated.toNat
  locked : b.locked = block.locked

/-- A handle carries a history: it is empty where the history has no elements, and else it owns a block that holds
what the history says. -/
def Handle.Carries (b : Handle) (width : Width) (heap : Heap) (h : History) : Prop :=
  (b = {} ∧ h.size = 0) ∨
    ∃ address block, b.Owns width heap address block ∧ b.size.toNat = h.size ∧ block.bytes = h.contents width

namespace Handle

variable {width : Width} {heap : Heap} {b : Handle} {h : History} {address : Nat} {block : Block}

/-- The span of the elements is the whole block. -/
theorem Owns.span_eq (hb : b.Owns width heap address block) : b.span width = block.bytes.length := by
  rw [hb.length, hb.allocated, span, Width.toNat_mul_word]
  rw [← hb.allocated]
  exact b.allocated.toNat_lt

theorem Owns.length_pos (hb : b.Owns width heap address block) : 0 < block.bytes.length := by
  rw [hb.length, hb.allocated]
  exact Nat.mul_pos hb.size_pos width.bytes_pos

@[simp] theorem span_empty (width : Width) : ({} : Handle).span width = 0 := by
  rw [span, UInt64.zero_mul, UInt64.toNat_zero]

namespace Carries

/-- A handle is not concerned with what happens to other blocks. -/
theorem frame (hb : b.Carries width heap h) {heap' : Heap}
    (hsame : ∀ address, b.pointer = some address → heap'.blocks address = heap.blocks address) :
    b.Carries width heap' h := by
  rcases hb with hempty | ⟨address, block, howns, hholds⟩
  · exact .inl hempty
  · exact .inr ⟨address, block, { howns with live := (hsame address howns.pointer).trans howns.live }, hholds⟩

theorem exists_live (hb : b.Carries width heap h) (hpointer : b.pointer = some address) :
    ∃ block, heap.blocks address = some block := by
  rcases hb with ⟨rfl, -⟩ | ⟨address', block, howns, -⟩
  · cases hpointer
  · obtain rfl : address' = address := Option.some.inj (howns.pointer.symm.trans hpointer)
    exact ⟨block, howns.live⟩

/-- A buffer shows what its history says. -/
theorem view_eq (hb : b.Carries width heap h) : b.view width heap = h.view width := by
  rcases hb with ⟨rfl, hsize⟩ | ⟨address, block, howns, hsize, hbytes⟩
  · rw [History.view, hsize, History.contents_of_size_eq_zero hsize]
    rfl
  · simp [Handle.view, History.view, hsize, howns.pointer, howns.span_eq, Heap.read, howns.live, ← hbytes]

theorem eq_empty (hb : b.Carries width heap h) (hsize : h.size = 0) : b = {} := by
  rcases hb with ⟨hempty, -⟩ | ⟨address, block, howns, hcount, -⟩
  · exact hempty
  · have := howns.size_pos
    omega

end Carries

/-- A write through a buffer that owns its block stays in it. -/
theorem Owns.write_eq (hb : b.Owns width heap address block) (offset : Nat) (data : Bytes) :
    b.write width heap offset data
      = heap.put address (some { block with
          bytes := Memory.overwrite block.bytes offset (data.take (block.bytes.length - offset)) }) := by
  rw [write, hb.span_eq]
  by_cases hpart : data.take (block.bytes.length - offset) = []
  · simp only [hpart, Memory.overwrite_nil]
    exact (Heap.put_eq_self hb.live).symm
  · have hroom : offset + (data.take (block.bytes.length - offset)).length ≤ block.bytes.length := by
      have hlength := List.length_pos_iff.mpr hpart
      rw [List.length_take] at hlength ⊢
      omega
    simp only [if_neg hpart, hb.pointer, Heap.write_of_live hb.live hroom]

@[simp] theorem write_empty (width : Width) (heap : Heap) (offset : Nat) (data : Bytes) :
    ({} : Handle).write width heap offset data = heap := by
  simp [write]

/-- Letting a buffer go gives its block back, with zeros for its bytes and unlocked. -/
theorem Owns.release_eq (hb : b.Owns width heap address block) :
    b.release heap = { heap.put address none with
      returned := .zeros block.bytes.length false :: heap.returned } := by
  have hpos : 0 < b.allocated := by
    rw [UInt64.lt_iff_toNat_lt, ← hb.length]
    exact hb.length_pos
  have hwipe := Heap.wipe_of_live hb.live
  simp only [release, hb.pointer, if_pos hpos, ← hb.length, hwipe, hb.locked]
  cases hlocked : block.locked with
  | false => simp [Heap.free, Heap.put_put]
  | true => simp [Heap.free, Heap.setLock_of_live (h := heap.put _ _) (if_pos rfl), Heap.put_put, Block.zeros]

end Handle

/-! ## All buffers -/

/-- The contents that a buffer can be made from: whole elements, as many as memory can hold. -/
structure Elements (width : Width) where
  bytes : Bytes
  whole : width.bytes ∣ bytes.length
  fits : bytes.length < UInt64.size

namespace Elements

variable {width : Width} (e : Elements width)

theorem toNat_count : (UInt64.ofNat (e.bytes.length / width.bytes)).toNat = e.bytes.length / width.bytes :=
  UInt64.toNat_ofNat_of_lt' (Nat.lt_of_le_of_lt (Nat.div_le_self _ _) e.fits)

theorem toNat_count_mul :
    (UInt64.ofNat (e.bytes.length / width.bytes)).toNat * width.bytes = e.bytes.length := by
  rw [e.toNat_count, Nat.div_mul_cancel e.whole]

end Elements

/-- A block as it is given back: unlocked, and nothing but zeros. -/
def Block.IsBlank (block : Block) : Prop := block.locked = false ∧ ∀ b ∈ block.bytes, b = 0

/-- The history of each variable. -/
abbrev Histories := Variable → History

/-- Sets the history of a variable. -/
def Histories.set (l : Histories) (x : Variable) (h : History) : Histories := fun y => if y = x then h else l y

@[simp] theorem Histories.set_apply (l : Histories) (x : Variable) (h : History) (y : Variable) :
    l.set x h y = if y = x then h else l y := rfl

theorem Histories.set_set (l : Histories) (x : Variable) (first second : History) :
    (l.set x first).set x second = l.set x second := by
  funext y
  by_cases hy : y = x <;> simp [hy]

/-- The temporary buffer takes its history along to a name, and leaves none behind. -/
def Histories.adopt (l : Histories) (name : Bytes) : Histories := (l.set (some name) (l none)).set none {}

namespace Vault

@[simp] theorem handles_set (v : Vault) (x : Variable) (b : Handle) (y : Variable) :
    (v.set x b).handles y = if y = x then b else v.handles y := rfl

@[simp] theorem toHeap_set (v : Vault) (x : Variable) (b : Handle) : (v.set x b).toHeap = v.toHeap := rfl

theorem set_eq_self {v : Vault} {x : Variable} {b : Handle} (hx : v.handles x = b) : v.set x b = v := by
  have hhandles : (fun y => if y = x then b else v.handles y) = v.handles := by
    funext y
    by_cases hy : y = x <;> simp [hy, hx]
  rw [set, hhandles]

theorem set_comm {v : Vault} {x y : Variable} (hxy : x ≠ y) (b c : Handle) :
    (v.set x b).set y c = (v.set y c).set x b := by
  simp only [set]
  congr 1
  funext z
  by_cases hx : z = x
  · simp [hx, hxy]
  · simp [hx]

/-- There is nothing to let go of in an empty buffer. -/
theorem destroy_of_empty {v : Vault} {x : Variable} (hx : v.handles x = {}) : v.destroy x = v := by
  have hrelease : (v.handles x).release v.toHeap = v.toHeap := by
    rw [hx]
    rfl
  rw [destroy, hrelease]
  exact set_eq_self hx

/-- Making a zeroed buffer, in all cases. -/
theorem construct_eq (v : Vault) (available : Nat) (x : Variable) (n : UInt64) :
    v.construct available x n
      = if UInt64.size ≤ n.toNat * v.width.bytes then .error .length
        else if n = 0 then .ok (v.set x {})
        else if available < n.toNat * v.width.bytes then .error .memory
        else .ok ({ v with toHeap := v.toHeap.add (.zeros (n.toNat * v.width.bytes) (v.grantsLock v.nextAddress)) }.set
          x (.next v.toHeap v.width n)) := by
  rw [construct, Handle.zeroed_eq]
  split
  · rfl
  split
  · rfl
  split <;> rfl

/-- Contents are written to a buffer that was zeroed before. -/
theorem constructFrom_eq (v : Vault) (available : Nat) (x : Variable) (contents : Bytes) :
    v.constructFrom available x contents
      = (v.construct available x (.ofNat (contents.length / v.width.bytes))).map (·.write x 0 contents) := by
  rw [constructFrom, construct, Handle.filled]
  cases Handle.zeroed available v.width (.ofNat (contents.length / v.width.bytes)) v.toHeap with
  | error e => rfl
  | ok made =>
      obtain ⟨b, heap⟩ := made
      have hhandle : ({ v with toHeap := heap }.set x b).handles x = b := if_pos rfl
      simp only [bind, Except.bind, pure, Except.pure, Except.map, write, hhandle]
      rfl

/-- **The invariant**: each handle carries the history of its variable, each block in use is pointed to by one
handle alone, no access has gone astray, and what was given back is blank. -/
structure Keeps (width : Width) (v : Vault) (l : Histories) : Prop where
  width_eq : v.width = width
  carries : ∀ x, (v.handles x).Carries width v.toHeap (l x)
  alone : ∀ x y address, (v.handles x).pointer = some address → (v.handles y).pointer = some address → x = y
  held : ∀ address, (v.blocks address).isSome → ∃ x, (v.handles x).pointer = some address
  unused : ∀ address, v.nextAddress ≤ address → v.blocks address = none
  strays : v.strays = 0
  blank : ∀ block ∈ v.returned, block.IsBlank

namespace Keeps

variable {width : Width} {v : Vault} {l : Histories} {x y : Variable}

/-- A handle that is empty may be taken to carry nothing. -/
theorem forget (hk : v.Keeps width l) (hx : v.handles x = {}) : v.Keeps width (l.set x {}) := by
  refine { hk with carries := fun y => ?_ }
  by_cases hy : y = x
  · subst hy
    rw [Histories.set_apply, if_pos rfl]
    exact .inl ⟨hx, rfl⟩
  · rw [Histories.set_apply, if_neg hy]
    exact hk.carries y

/-- The buffer of a variable goes, and no other one. -/
theorem destroy (hk : v.Keeps width l) (x : Variable) : (v.destroy x).Keeps width (l.set x {}) := by
  rcases hk.carries x with ⟨hempty, -⟩ | ⟨address, block, howns, -⟩
  · rw [destroy_of_empty hempty]
    exact hk.forget hempty
  have hother : ∀ y a, y ≠ x → (v.handles y).pointer = some a → a ≠ address := by
    rintro y a hy hpointer rfl
    exact hy (hk.alone y x a hpointer howns.pointer)
  rw [Vault.destroy, howns.release_eq]
  refine ⟨hk.width_eq, fun y => ?_, fun y z a hy hz => ?_, fun a ha => ?_, fun a ha => ?_, hk.strays, ?_⟩
  · by_cases hy : y = x
    · simp only [handles_set, Histories.set_apply, if_pos hy]
      exact .inl ⟨rfl, rfl⟩
    · simp only [handles_set, Histories.set_apply, if_neg hy]
      exact (hk.carries y).frame fun a hpointer => if_neg (hother y a hy hpointer)
  · simp only [handles_set] at hy hz
    split at hy
    · cases hy
    split at hz
    · cases hz
    exact hk.alone y z a hy hz
  · simp only [toHeap_set, Heap.blocks_put] at ha
    split at ha
    · cases ha
    next hne =>
      obtain ⟨y, hy⟩ := hk.held a ha
      refine ⟨y, ?_⟩
      rw [handles_set, if_neg, hy]
      rintro rfl
      exact hne (Option.some.inj (hy.symm.trans howns.pointer))
  · simp only [toHeap_set, Heap.blocks_put]
    split
    · rfl
    · exact hk.unused a ha
  · simp only [toHeap_set, List.forall_mem_cons]
    exact ⟨⟨rfl, fun b hb => List.eq_of_mem_replicate hb⟩, hk.blank⟩

/-- A handle changes its variable: the block is still pointed to by one handle alone. -/
theorem hand (hk : v.Keeps width l) (hxy : x ≠ y) (hy : v.handles y = {}) :
    ((v.set y (v.handles x)).set x {}).Keeps width ((l.set y (l x)).set x {}) := by
  refine ⟨hk.width_eq, fun z => ?_, fun z z' a hz hz' => ?_, fun a ha => ?_, hk.unused, hk.strays, hk.blank⟩
  · simp only [handles_set, Histories.set_apply]
    split
    · exact .inl ⟨rfl, rfl⟩
    split
    · exact hk.carries x
    · exact hk.carries z
  · -- whoever points somewhere now had its pointer from itself, or `y` from `x`
    have hfrom : ∀ {z}, (((v.set y (v.handles x)).set x {}).handles z).pointer = some a →
        z ≠ x ∧ (v.handles (if z = y then x else z)).pointer = some a := by
      intro z hz
      rw [handles_set, handles_set] at hz
      split at hz
      · cases hz
      next hzx =>
        refine ⟨hzx, ?_⟩
        split at hz <;> simp [*]
    obtain ⟨hzx, hz⟩ := hfrom hz
    obtain ⟨hzx', hz'⟩ := hfrom hz'
    have hsame := hk.alone _ _ a hz hz'
    split at hsame <;> split at hsame <;> simp_all
  · obtain ⟨z, hz⟩ := hk.held a ha
    by_cases hzx : z = x
    · refine ⟨y, ?_⟩
      rw [handles_set, if_neg hxy.symm, handles_set, if_pos rfl, ← hzx, hz]
    · refine ⟨z, ?_⟩
      rw [handles_set, if_neg hzx, handles_set, if_neg, hz]
      rintro rfl
      rw [hy] at hz
      cases hz

/-- A write goes to the block of the buffer, and to its history. -/
theorem write (hk : v.Keeps width l) (x : Variable) (offset : Nat) (data : Bytes) :
    (v.write x offset data).Keeps width (l.set x ((l x).write offset data)) := by
  obtain ⟨rfl⟩ := hk.width_eq
  rcases hk.carries x with ⟨hempty, hsize⟩ | ⟨address, block, howns, hsize, hbytes⟩
  · have hwrite : v.write x offset data = v := by rw [Vault.write, hempty, Handle.write_empty]
    rw [hwrite]
    refine { hk with carries := fun y => ?_ }
    rw [Histories.set_apply]
    split
    next hy => exact .inl ⟨hy ▸ hempty, hsize⟩
    · exact hk.carries y
  have hlength : block.bytes.length = (l x).size * v.width.bytes := by rw [hbytes, History.length_contents]
  rw [Vault.write, howns.write_eq, hlength, hbytes, ← History.contents_write]
  refine ⟨rfl, fun y => ?_, hk.alone, fun a ha => ?_, fun a ha => ?_, hk.strays, hk.blank⟩
  · rw [Histories.set_apply]
    split
    next hy =>
      subst hy
      refine .inr ⟨address, _, { howns with live := if_pos rfl, length := ?_ }, hsize, rfl⟩
      rw [← howns.length, hlength, History.length_contents]
      rfl
    next hy =>
      refine (hk.carries y).frame fun a hpointer => if_neg ?_
      rintro rfl
      exact hy (hk.alone y x a hpointer howns.pointer)
  · refine hk.held a ?_
    rw [Heap.blocks_put] at ha
    split at ha
    next haddress => rw [haddress, howns.live, Option.isSome_some]
    · exact ha
  · rw [Heap.blocks_put, if_neg, hk.unused a ha]
    rintro rfl
    have hnone := hk.unused a ha
    rw [howns.live] at hnone
    cases hnone

/-- A new block is pointed to by the variable that it is made for. -/
theorem add (hk : v.Keeps width l) (hx : v.handles x = {}) {n : UInt64} (hn : n ≠ 0)
    (hfits : n.toNat * width.bytes < UInt64.size) :
    ({ v with toHeap := v.toHeap.add (.zeros (n.toNat * width.bytes) (v.grantsLock v.nextAddress)) }.set x
      (.next v.toHeap width n)).Keeps width (l.set x { size := n.toNat }) := by
  have hbelow : ∀ y a, (v.handles y).pointer = some a → a ≠ v.nextAddress := by
    rintro y a hpointer rfl
    obtain ⟨block, hlive⟩ := (hk.carries y).exists_live hpointer
    rw [hk.unused _ (Nat.le_refl _)] at hlive
    cases hlive
  have hpos : 0 < n.toNat := Nat.pos_of_ne_zero fun h => hn (UInt64.toNat_inj.mp h)
  refine ⟨hk.width_eq, fun y => ?_, fun y z a hy hz => ?_, fun a ha => ?_, fun a ha => ?_, hk.strays, hk.blank⟩
  · rw [handles_set, Histories.set_apply]
    split
    · refine .inr ⟨v.nextAddress, _, ⟨rfl, if_pos rfl, hpos, Width.toNat_mul_word hfits, ?_, rfl⟩, rfl, ?_⟩
      · rw [Block.zeros, List.length_replicate]
        exact (Width.toNat_mul_word hfits).symm
      · exact (History.contents_unwritten _ _).symm
    · exact (hk.carries y).frame fun a hpointer => if_neg (hbelow y a hpointer)
  · rw [handles_set] at hy hz
    split at hy <;> split at hz
    next hyx hzx => rw [hyx, hzx]
    · exact absurd (Option.some.inj hy).symm (hbelow z a hz)
    · exact absurd (Option.some.inj hz).symm (hbelow y a hy)
    · exact hk.alone y z a hy hz
  · rw [toHeap_set, Heap.blocks_add] at ha
    split at ha
    next haddress =>
      refine ⟨x, ?_⟩
      rw [handles_set, if_pos rfl, haddress]
      rfl
    · obtain ⟨y, hy⟩ := hk.held a ha
      refine ⟨y, ?_⟩
      rw [handles_set, if_neg, hy]
      rintro rfl
      rw [hx] at hy
      cases hy
  · have ha : v.nextAddress + 1 ≤ a := ha
    rw [toHeap_set, Heap.blocks_add, if_neg (by omega)]
    exact hk.unused a (by omega)

/-- A zeroed buffer is made where there was none, if its bytes can be counted and there is memory for them. -/
theorem construct (hk : v.Keeps width l) (hx : v.handles x = {}) {available : Nat} {n : UInt64}
    (hfits : n.toNat * width.bytes < UInt64.size) (hroom : n.toNat * width.bytes ≤ available) :
    ∃ v', v.construct available x n = .ok v' ∧ v'.Keeps width (l.set x { size := n.toNat }) := by
  obtain ⟨rfl⟩ := hk.width_eq
  by_cases hn : n = 0
  · subst hn
    refine ⟨v, ?_, hk.forget hx⟩
    rw [construct_eq, if_neg (Nat.not_le.mpr hfits), if_pos rfl, set_eq_self hx]
  · refine ⟨_, ?_, hk.add hx hn hfits⟩
    rw [construct_eq, if_neg (Nat.not_le.mpr hfits), if_neg hn, if_neg (Nat.not_lt.mpr hroom)]

/-- What is assigned takes its history along. -/
theorem moveAssign (hk : v.Keeps width l) (hxy : x ≠ y) :
    (v.moveAssign x y).Keeps width ((l.set y (l x)).set x {}) := by
  have hgone : (v.destroy y).handles y = {} := if_pos rfl
  have hmoved := (hk.destroy y).hand hxy hgone
  rw [Histories.set_apply, if_neg hxy, Histories.set_set] at hmoved
  rw [Vault.moveAssign, if_neg hxy.symm]
  exact hmoved

/-- The temporary buffer goes over to a name, and nothing is left of it. -/
theorem adopt (hk : v.Keeps width l) (name : Bytes) :
    (v.adopt name).Keeps width (l.adopt name) := by
  have hassigned := (hk.moveAssign (x := none) (y := some name) (by simp)).destroy none
  rwa [Histories.set_set] at hassigned

/-- A buffer is made from contents where there was none, if there is memory for them. -/
theorem constructFrom (hk : v.Keeps width l) (hx : v.handles x = {}) {available : Nat} (e : Elements width)
    (hroom : e.bytes.length ≤ available) :
    ∃ v', v.constructFrom available x e.bytes = .ok v' ∧
      v'.Keeps width (l.set x { size := e.bytes.length / width.bytes, writes := [(0, e.bytes)] }) := by
  obtain ⟨rfl⟩ := hk.width_eq
  have hfits := e.fits
  rw [← e.toNat_count_mul] at hfits hroom
  obtain ⟨v', hmade, hk'⟩ := hk.construct hx hfits hroom
  have hwritten := hk'.write x 0 e.bytes
  rw [Histories.set_apply, if_pos rfl, Histories.set_set, e.toNat_count] at hwritten
  exact ⟨_, by rw [constructFrom_eq, hmade]; rfl, hwritten⟩

end Keeps

end Vault

end SignedAudit
