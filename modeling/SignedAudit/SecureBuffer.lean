import SignedAudit.Memory

namespace SignedAudit

/-! # Buffers for secrets

A buffer owns one block of memory, or none. The block is zeroed and, if the system grants it, locked when the
buffer is made, and wiped, unlocked and freed when the buffer goes. A buffer can be moved but not copied: a move
hands the block over and leaves the source empty. A `Handle` is what a buffer keeps about its block; the block
itself is in the `Heap`. A `Vault` holds buffers of one element width. -/

/-- The size of an element: one, two, four or eight bytes, which is also its alignment. -/
inductive Width
  | one
  | two
  | four
  | eight
  deriving DecidableEq, Repr

/-- The number of bytes of an element. -/
def Width.bytes : Width → Nat
  | one => 1
  | two => 2
  | four => 4
  | eight => 8

/-- The number of bytes of an element, as a word. -/
def Width.word (w : Width) : UInt64 := .ofNat w.bytes

/-- The greatest size that a word of 64 bits can hold. -/
def greatestSize : UInt64 := 18446744073709551615

/-! ## Memory -/

/-- A block of memory that is in use. -/
structure Block where
  bytes : Bytes
  locked : Bool
  deriving DecidableEq, Repr

/-- Memory: the blocks in use, and those that were given back, as they were then. A write, a lock or a return
that misses the blocks in use is a stray one. What memory holds before it is written to, and which blocks the
system locks, is not known. -/
structure Heap where
  debris : Nat → Nat → UInt8 := fun _ _ => 0
  grantsLock : Nat → Bool := fun _ => true
  nextAddress : Nat := 0
  blocks : Nat → Option Block := fun _ => none
  returned : List Block := []
  strays : Nat := 0

namespace Heap

/-- Puts a block, or nothing, at an address. -/
def put (h : Heap) (address : Nat) (block : Option Block) : Heap :=
  { h with blocks := fun a => if a = address then block else h.blocks a }

/-- Counts a stray access. -/
def stray (h : Heap) : Heap := { h with strays := h.strays + 1 }

/-- Puts a block at the next address. -/
def add (h : Heap) (block : Block) : Heap :=
  { h.put h.nextAddress (some block) with nextAddress := h.nextAddress + 1 }

/-- Hands out a block, where `available` bytes can still be had. -/
def allocate (h : Heap) (available count : Nat) : Option (Nat × Heap) :=
  if available < count then none
  else
    let block := { bytes := (List.range count).map (h.debris h.nextAddress), locked := false }
    some (h.nextAddress, h.add block)

/-- The first bytes of a block. -/
def read (h : Heap) (address count : Nat) : Bytes :=
  ((h.blocks address).map fun block => block.bytes.take count).getD []

/-- Overwrites the bytes of a block from an offset on. -/
def write (h : Heap) (address offset : Nat) (data : Bytes) : Heap :=
  match h.blocks address with
  | some block =>
    if offset + data.length ≤ block.bytes.length then
      h.put address (some { block with bytes := Memory.overwrite block.bytes offset data })
    else h.stray
  | none => h.stray

/-- Overwrites the first bytes of a block with zeros. -/
def wipe (h : Heap) (address count : Nat) : Heap := h.write address 0 (List.replicate count 0)

/-- Locks or unlocks a block. -/
def setLock (h : Heap) (address : Nat) (locked : Bool) : Heap :=
  match h.blocks address with
  | some block => h.put address (some { block with locked })
  | none => h.stray

/-- Asks the system to lock the first bytes of a block. -/
def lock (h : Heap) (address count : Nat) : Memory.LockStatus × Heap :=
  let status := Memory.lock (h.grantsLock address) (h.read address count)
  (status, if status = .locked then h.setLock address true else h)

/-- Gives a block back. -/
def free (h : Heap) (address : Nat) : Heap :=
  match h.blocks address with
  | some block => { h.put address none with returned := block :: h.returned }
  | none => h.stray

end Heap

/-! ## One buffer -/

/-- Why a buffer cannot be made: its size is no 64-bit number, or there is no memory for it. -/
inductive AllocationError
  | length
  | memory
  deriving DecidableEq, Repr

/-- The least multiple of the alignment that is not below a size, if a word of 64 bits can hold it. -/
def Width.roundUp (width : Width) (size : UInt64) : Except AllocationError UInt64 :=
  let alignment := width.word
  if alignment ≤ 1 then .ok size
  else
    let remainder := size % alignment
    if remainder = 0 then .ok size
    else
      let padding := alignment - remainder
      if greatestSize - padding < size then .error .length else .ok (size + padding)

/-- What a buffer shows: how many elements it has, and their bytes. -/
structure SecureBuffer where
  size : Nat
  contents : Bytes
  deriving DecidableEq, Repr

/-- Has the buffer no elements? -/
def SecureBuffer.isEmpty (b : SecureBuffer) : Bool := b.size == 0

/-- What a buffer keeps about its block: where it is, its number of elements and of bytes, and whether it is
locked. A handle that was not given a block is empty. -/
structure Handle where
  pointer : Option Nat := none
  size : UInt64 := 0
  allocated : UInt64 := 0
  locked : Bool := false
  deriving DecidableEq, Repr

namespace Handle

/-- The number of bytes of the elements. -/
def span (b : Handle) (width : Width) : Nat := (b.size * width.word).toNat

/-- What the buffer shows. -/
def view (b : Handle) (width : Width) (heap : Heap) : SecureBuffer where
  size := b.size.toNat
  contents := (b.pointer.map fun address => heap.read address (b.span width)).getD []

/-- Makes a zeroed buffer of `n` elements. -/
def zeroed (available : Nat) (width : Width) (n : UInt64) (heap : Heap) :
    Except AllocationError (Handle × Heap) :=
  if 0 < n ∧ greatestSize / width.word < n then .error .length
  else
    let bytes := n * width.word
    if bytes = 0 then .ok ({ size := n }, heap)
    else do
      let allocated ← width.roundUp bytes
      match heap.allocate available allocated.toNat with
      | none => .error .memory
      | some (address, heap) =>
        let heap := heap.wipe address allocated.toNat
        if Memory.lockSupported then
          let (status, heap) := heap.lock address allocated.toNat
          return ({ pointer := some address, size := n, allocated, locked := status == .locked }, heap)
        else return ({ pointer := some address, size := n, allocated }, heap)

/-- Overwrites bytes of the elements from an offset on, with as much of the data as there is room for. -/
def write (b : Handle) (width : Width) (heap : Heap) (offset : Nat) (data : Bytes) : Heap :=
  let part := data.take (b.span width - offset)
  if part = [] then heap
  else
    match b.pointer with
    | some address => heap.write address offset part
    | none => heap.stray

/-- Makes a buffer from contents, a whole number of elements. -/
def filled (available : Nat) (width : Width) (contents : Bytes) (heap : Heap) :
    Except AllocationError (Handle × Heap) := do
  let (b, heap) ← zeroed available width (.ofNat (contents.length / width.bytes)) heap
  return (b, b.write width heap 0 contents)

/-- Wipes, unlocks and frees the block of a buffer. -/
def release (b : Handle) (heap : Heap) : Heap :=
  match b.pointer with
  | some address =>
    if 0 < b.allocated then
      let heap := heap.wipe address b.allocated.toNat
      let heap := if b.locked then heap.setLock address false else heap
      heap.free address
    else heap
  | none => heap

end Handle

/-- What a new buffer of `n` elements shows, in memory that hands out blocks from an address on. -/
def SecureBuffer.allocate (available : Nat) (width : Width) (n address : Nat) :
    Except AllocationError SecureBuffer := do
  let (b, heap) ← Handle.zeroed available width (.ofNat n) { nextAddress := address }
  return b.view width heap

/-! ## Many buffers -/

/-- What a buffer is bound to: a name, or the statement that it is the temporary buffer of. -/
abbrev Variable := Option Bytes

/-- Memory, and handles of one element width in it. A variable that was never given a buffer has the empty one. -/
structure Vault extends Heap where
  width : Width
  handles : Variable → Handle := fun _ => {}

namespace Vault

/-- Sets the handle of a variable, whatever it was. -/
def set (v : Vault) (x : Variable) (b : Handle) : Vault :=
  { v with handles := fun y => if y = x then b else v.handles y }

/-- What the buffer of a variable shows. -/
def view (v : Vault) (x : Variable) : SecureBuffer := (v.handles x).view v.width v.toHeap

/-- Makes a zeroed buffer of `n` elements in a variable that has none. -/
def construct (v : Vault) (available : Nat) (x : Variable) (n : UInt64) : Except AllocationError Vault := do
  let (b, heap) ← Handle.zeroed available v.width n v.toHeap
  return { v with toHeap := heap }.set x b

/-- Makes a buffer from contents in a variable that has none. -/
def constructFrom (v : Vault) (available : Nat) (x : Variable) (contents : Bytes) :
    Except AllocationError Vault := do
  let (b, heap) ← Handle.filled available v.width contents v.toHeap
  return { v with toHeap := heap }.set x b

/-- Makes a buffer out of another one, in a variable that has none. -/
def moveConstruct (v : Vault) (source target : Variable) : Vault :=
  (v.set target (v.handles source)).set source {}

/-- Lets the buffer of a variable go. -/
def destroy (v : Vault) (x : Variable) : Vault :=
  { v with toHeap := (v.handles x).release v.toHeap }.set x {}

/-- Moves a buffer onto another one, which goes first. A buffer that is moved onto itself stays. -/
def moveAssign (v : Vault) (source target : Variable) : Vault :=
  if target = source then v
  else
    let v := v.destroy target
    (v.set target (v.handles source)).set source {}

/-- Writes to the elements of a buffer. -/
def write (v : Vault) (x : Variable) (offset : Nat) (data : Bytes) : Vault :=
  { v with toHeap := (v.handles x).write v.width v.toHeap offset data }

/-! ### What is done under names -/

/-- What the buffer of a name shows. -/
def buffer (v : Vault) (name : Bytes) : SecureBuffer := v.view (some name)

/-- Assigns the temporary buffer to a name, and lets it go. -/
def adopt (v : Vault) (name : Bytes) : Vault := (v.moveAssign none (some name)).destroy none

/-- Gives a name a zeroed buffer of `n` elements. -/
def create (v : Vault) (available : Nat) (name : Bytes) (n : UInt64) : Except AllocationError Vault := do
  return (← v.construct available none n).adopt name

/-- Gives a name a buffer made from contents. -/
def createFrom (v : Vault) (available : Nat) (name contents : Bytes) : Except AllocationError Vault := do
  return (← v.constructFrom available none contents).adopt name

/-- Overwrites the first bytes of a buffer with as much of the data as there is room for. -/
def store (v : Vault) (name data : Bytes) : Vault := v.write (some name) 0 data

/-- Wipes the elements of a buffer. -/
def wipe (v : Vault) (name : Bytes) : Vault := v.store name (Memory.wipe (v.buffer name).contents)

/-- Moves a buffer from one name onto another one. -/
def move (v : Vault) (source target : Bytes) : Vault := v.moveAssign (some source) (some target)

/-- Moves a buffer out of its name into a temporary one, which shows it and goes. -/
def take (v : Vault) (source : Bytes) : SecureBuffer × Vault :=
  let v := v.moveConstruct (some source) none
  (v.view none, v.destroy none)

end Vault

end SignedAudit
