import Mathlib.Logic.ExistsUnique
import SignedAudit.Proofs.BufferOwnership

namespace SignedAudit

/-! # Buffers in use

Buffers are made, written to, moved and let go of, in any order. Whatever was done, each one shows what its history
says, and each block in use belongs to one name. -/

/-! ## What is done with buffers -/

/-- A buffer takes its history along from one name to another one, and leaves none behind. -/
def Histories.pass (l : Histories) (source target : Bytes) : Histories := fun x =>
  if x = some target then l (some source) else if x = some source then {} else l x

theorem Histories.pass_of_ne {l : Histories} {source target : Bytes} {x : Variable} (hsource : x ≠ some source)
    (htarget : x ≠ some target) : l.pass source target x = l x := by
  rw [pass, if_neg htarget, if_neg hsource]

theorem Histories.pass_self (l : Histories) (name : Bytes) : l.pass name name = l := by
  funext x
  by_cases hx : x = some name <;> simp [pass, hx]

theorem Histories.set_set_eq_pass (l : Histories) {source target : Bytes} (hne : source ≠ target) :
    (l.set (some target) (l (some source))).set (some source) {} = l.pass source target := by
  funext x
  by_cases hx : x = some source
  · simp [pass, hx, hne]
  · simp [pass, hx]

/-- What is made in the temporary buffer for a name is made in the name. -/
theorem Histories.adopt_set_none {l : Histories} (hl : l none = {}) (name : Bytes) (h : History) :
    (l.set none h).adopt name = l.set (some name) h := by
  funext x
  cases x with
  | none => simp [adopt, hl]
  | some other => simp [adopt]

/-- A buffer that goes by way of the temporary one goes from name to name. -/
theorem Histories.adopt_set_set {l : Histories} (hl : l none = {}) (source target : Bytes) :
    ((l.set none (l (some source))).set (some source) {}).adopt target = l.pass source target := by
  funext x
  cases x with
  | none => simp [adopt, pass, hl]
  | some name => simp [adopt, pass]

/-- What is done with named buffers. A buffer can only be made where memory has as many bytes available as it
takes. -/
inductive Operation (width : Width)
  /-- A name gets a zeroed buffer of `n` elements. -/
  | create (available : Nat) (name : Bytes) (n : UInt64)
  /-- A name gets a buffer made from contents. -/
  | createFrom (available : Nat) (name : Bytes) (contents : Elements width)
  /-- The bytes of a buffer are written to from an offset on. -/
  | write (name : Bytes) (offset : Nat) (data : Bytes)
  /-- A name gets a buffer that is made out of another one. -/
  | moveConstruct (source target : Bytes)
  /-- A buffer is moved onto another one. -/
  | moveAssign (source target : Bytes)
  /-- A buffer goes. -/
  | destroy (name : Bytes)

namespace Operation

variable {width : Width}

/-- The names that an operation is about. -/
def names : Operation width → List Bytes
  | create _ name _ => [name]
  | createFrom _ name _ => [name]
  | write name _ _ => [name]
  | moveConstruct source target => [source, target]
  | moveAssign source target => [source, target]
  | destroy name => [name]

/-- What an operation makes of the buffers: nothing else, where a buffer cannot be made. -/
def perform (v : Vault) : Operation width → Vault
  | create available name n => ((v.create available name n).toOption).getD v
  | createFrom available name contents => ((v.createFrom available name contents.bytes).toOption).getD v
  | write name offset data => v.write (some name) offset data
  | moveConstruct source target => (v.moveConstruct (some source) none).adopt target
  | moveAssign source target => v.move source target
  | destroy name => v.destroy (some name)

/-- What an operation adds to the histories: a new buffer has a new one, and a buffer takes its own along. -/
def record (l : Histories) : Operation width → Histories
  | create available name n =>
    if n.toNat * width.bytes < UInt64.size ∧ n.toNat * width.bytes ≤ available then
      l.set (some name) { size := n.toNat }
    else l
  | createFrom available name contents =>
    if contents.bytes.length ≤ available then
      l.set (some name) { size := contents.bytes.length / width.bytes, writes := [(0, contents.bytes)] }
    else l
  | write name offset data => l.set (some name) ((l (some name)).write offset data)
  | moveConstruct source target => l.pass source target
  | moveAssign source target => l.pass source target
  | destroy name => l.set (some name) {}

/-- No history changes but those of the names that the operation is about. -/
theorem record_of_ne {op : Operation width} {x : Variable} (hx : ∀ name ∈ op.names, x ≠ some name)
    (l : Histories) : op.record l x = l x := by
  have hset : ∀ {name h}, x ≠ some name → l.set (some name) h x = l x := fun hne => if_neg hne
  cases op with
  | create available name n =>
      rw [record]
      split
      · exact hset (hx name (by simp [names]))
      · rfl
  | createFrom available name contents =>
      rw [record]
      split
      · exact hset (hx name (by simp [names]))
      · rfl
  | write name offset data => exact hset (hx name (by simp [names]))
  | moveConstruct source target =>
      exact Histories.pass_of_ne (hx source (by simp [names])) (hx target (by simp [names]))
  | moveAssign source target =>
      exact Histories.pass_of_ne (hx source (by simp [names])) (hx target (by simp [names]))
  | destroy name => exact hset (hx name (by simp [names]))

end Operation

/-! ## One operation -/

namespace Vault

variable {width : Width} {v : Vault} {l : Histories}

/-- Where a buffer cannot be made, an error says why. -/
theorem construct_refused (x : Variable) {available : Nat} {n : UInt64}
    (hrefused : ¬(n.toNat * v.width.bytes < UInt64.size ∧ n.toNat * v.width.bytes ≤ available)) :
    ∃ e, v.construct available x n = .error e := by
  rw [construct_eq]
  split
  · exact ⟨_, rfl⟩
  next hlength =>
    split
    next hzero =>
      refine absurd ⟨Nat.lt_of_not_le hlength, ?_⟩ hrefused
      simp [hzero]
    · split
      · exact ⟨_, rfl⟩
      next hroom => exact absurd ⟨Nat.lt_of_not_le hlength, Nat.le_of_not_lt hroom⟩ hrefused

/-- A buffer that is moved onto itself stays. -/
theorem move_self (v : Vault) (name : Bytes) : v.move name name = v := if_pos rfl

theorem Keeps.handles_none (hk : v.Keeps width l) (hl : l none = {}) : v.handles none = {} :=
  (hk.carries none).eq_empty (by rw [hl])

/-- **Step**: an operation keeps the invariant, and adds to the histories what is said of it. -/
theorem Keeps.perform (hk : v.Keeps width l) (hl : l none = {}) (op : Operation width) :
    (op.perform v).Keeps width (op.record l) := by
  have hnone := hk.handles_none hl
  cases op with
  | create available name n =>
      by_cases hroom : n.toNat * width.bytes < UInt64.size ∧ n.toNat * width.bytes ≤ available
      · obtain ⟨v', hmade, hk'⟩ := hk.construct hnone hroom.1 hroom.2
        have hadopted := hk'.adopt name
        rw [Histories.adopt_set_none hl] at hadopted
        rw [Operation.record, if_pos hroom, Operation.perform, create, hmade]
        exact hadopted
      · obtain ⟨rfl⟩ := hk.width_eq
        obtain ⟨e, hfailed⟩ := construct_refused none hroom
        rw [Operation.record, if_neg hroom, Operation.perform, create, hfailed]
        exact hk
  | createFrom available name contents =>
      by_cases hroom : contents.bytes.length ≤ available
      · obtain ⟨v', hmade, hk'⟩ := hk.constructFrom hnone contents hroom
        have hadopted := hk'.adopt name
        rw [Histories.adopt_set_none hl] at hadopted
        rw [Operation.record, if_pos hroom, Operation.perform, createFrom, hmade]
        exact hadopted
      · obtain ⟨rfl⟩ := hk.width_eq
        have hcount := contents.toNat_count_mul
        obtain ⟨e, hfailed⟩ := construct_refused none fun h => hroom (Nat.le_trans (Nat.le_of_eq hcount.symm) h.2)
        rw [Operation.record, if_neg hroom, Operation.perform, createFrom, constructFrom_eq, hfailed]
        exact hk
  | write name offset data => exact hk.write (some name) offset data
  | moveConstruct source target =>
      have hadopted := (hk.hand (x := some source) (y := none) (by simp) hnone).adopt target
      rw [Histories.adopt_set_set hl] at hadopted
      exact hadopted
  | moveAssign source target =>
      by_cases hsame : source = target
      · subst hsame
        rw [Operation.record, Histories.pass_self, Operation.perform, move_self]
        exact hk
      · have hassigned := hk.moveAssign (x := some source) (y := some target) (by simpa using hsame)
        rw [Histories.set_set_eq_pass l hsame] at hassigned
        exact hassigned
  | destroy name => exact hk.destroy (some name)

theorem Keeps.buffer_eq (hk : v.Keeps width l) (name : Bytes) : v.buffer name = (l (some name)).view width := by
  obtain ⟨rfl⟩ := hk.width_eq
  exact (hk.carries (some name)).view_eq

/-! ## In place -/

/-- **What is made for a name is made in place**: nothing shows that it went by way of a temporary buffer. -/
structure MakesInPlace (v : Vault) (name : Bytes) : Prop where
  create : ∀ available n, v.create available name n = v.construct available (some name) n
  createFrom : ∀ available contents,
    v.createFrom available name contents = v.constructFrom available (some name) contents
  moveConstruct : ∀ source, source ≠ name →
    (v.moveConstruct (some source) none).adopt name = v.moveConstruct (some source) (some name)

section InPlace

variable (hnone : v.handles none = {}) {name : Bytes} (hname : v.handles (some name) = {})

include hnone hname

theorem adopt_set_none (b : Handle) : (v.set none b).adopt name = v.set (some name) b := by
  have hgone : (v.set none b).destroy (some name) = v.set none b := destroy_of_empty (by simpa using hname)
  have hassigned : (v.set none b).moveAssign none (some name) = v.set (some name) b := by
    rw [moveAssign, if_neg (Option.some_ne_none name), hgone]
    simp only [set]
    congr 1
    funext x
    cases x <;> simp [hnone]
  rw [adopt, hassigned, destroy_of_empty (by simpa using hnone)]

theorem create_eq_construct (available : Nat) (n : UInt64) :
    v.create available name n = v.construct available (some name) n := by
  rw [create, construct, construct]
  cases Handle.zeroed available v.width n v.toHeap with
  | error e => rfl
  | ok made => exact congrArg Except.ok (adopt_set_none (v := { v with toHeap := made.2 }) hnone hname made.1)

theorem createFrom_eq_constructFrom (available : Nat) (contents : Bytes) :
    v.createFrom available name contents = v.constructFrom available (some name) contents := by
  rw [createFrom, constructFrom, constructFrom]
  cases Handle.filled available v.width contents v.toHeap with
  | error e => rfl
  | ok made => exact congrArg Except.ok (adopt_set_none (v := { v with toHeap := made.2 }) hnone hname made.1)

theorem adopt_moveConstruct (source : Bytes) (hne : source ≠ name) :
    (v.moveConstruct (some source) none).adopt name = v.moveConstruct (some source) (some name) := by
  have hsource : some source ≠ some name := fun h => hne (Option.some.inj h)
  have hgone : (v.set (some source) {}).handles (some name) = {} := by rwa [handles_set, if_neg hsource.symm]
  have hfree : (v.set (some source) {}).handles none = {} := by
    rwa [handles_set, if_neg (Option.some_ne_none source).symm]
  have hplaced := adopt_set_none hfree hgone (v.handles (some source))
  rwa [set_comm (Option.some_ne_none source), set_comm hsource] at hplaced

/-- A name that has no buffer gets one in place. -/
theorem makesInPlace : v.MakesInPlace name where
  create := create_eq_construct hnone hname
  createFrom := createFrom_eq_constructFrom hnone hname
  moveConstruct := adopt_moveConstruct hnone hname

end InPlace

/-! ## Handles of single names -/

theorem handles_moveAssign (v : Vault) {source target : Variable} (hne : source ≠ target) (x : Variable) :
    (v.moveAssign source target).handles x
      = if x = source then {} else if x = target then v.handles source else v.handles x := by
  rw [moveAssign, if_neg hne.symm]
  simp only [destroy, handles_set, if_neg hne]
  split
  · rfl
  split <;> rfl

theorem handles_adopt (v : Vault) (name : Bytes) (x : Variable) :
    (v.adopt name).handles x = if x = none then {} else if x = some name then v.handles none else v.handles x := by
  rw [adopt, destroy, handles_set]
  split
  · rfl
  next hx => exact (handles_moveAssign v (Option.some_ne_none name).symm x).trans (if_neg hx)

theorem handles_of_construct {x y : Variable} (hy : y ≠ x) {available : Nat} {n : UInt64} {v' : Vault}
    (hmade : v.construct available x n = .ok v') : v'.handles y = v.handles y := by
  rw [construct] at hmade
  cases hzeroed : Handle.zeroed available v.width n v.toHeap with
  | error e =>
      rw [hzeroed] at hmade
      cases hmade
  | ok made =>
      rw [hzeroed] at hmade
      cases hmade
      exact if_neg hy

/-- No handle changes but those of the names that an operation is about. -/
theorem handles_perform_of_not_mem {op : Operation width} {name : Bytes} (hname : name ∉ op.names) (v : Vault) :
    (op.perform v).handles (some name) = v.handles (some name) := by
  cases op with
  | create available other n =>
      have hother : name ≠ other := by simpa [Operation.names] using hname
      rw [Operation.perform, create]
      cases hmade : v.construct available none n with
      | error e => rfl
      | ok v' =>
          have hframe := handles_of_construct (y := some name) (by simp) hmade
          change (v'.adopt other).handles (some name) = _
          rw [handles_adopt, if_neg (by simp), if_neg (by simpa using hother), hframe]
  | createFrom available other contents =>
      have hother : name ≠ other := by simpa [Operation.names] using hname
      rw [Operation.perform, createFrom, constructFrom_eq]
      cases hmade : v.construct available none (.ofNat (contents.bytes.length / v.width.bytes)) with
      | error e => rfl
      | ok v' =>
          have hframe := handles_of_construct (y := some name) (by simp) hmade
          change ((v'.write none 0 contents.bytes).adopt other).handles (some name) = _
          rw [handles_adopt, if_neg (by simp), if_neg (by simpa using hother)]
          exact hframe
  | write other offset data => rfl
  | moveConstruct source target =>
      obtain ⟨hsource, htarget⟩ : name ≠ source ∧ name ≠ target := by simpa [Operation.names] using hname
      simp [Operation.perform, handles_adopt, moveConstruct, hsource, htarget]
  | moveAssign source target =>
      obtain ⟨hsource, htarget⟩ : name ≠ source ∧ name ≠ target := by simpa [Operation.names] using hname
      by_cases hsame : source = target
      · rw [hsame, Operation.perform, move_self]
      · simp [Operation.perform, move, handles_moveAssign, hsame, hsource, htarget]
  | destroy other =>
      have hother : name ≠ other := by simpa [Operation.names] using hname
      simp [Operation.perform, destroy, hother]

end Vault

/-! ## Runs -/

/-- What is known of the buffers after operations, one after the other. -/
def Histories.run {width : Width} (l : Histories) (ops : List (Operation width)) : Histories :=
  ops.foldl Operation.record l

namespace Vault

variable {width : Width} {v : Vault} {l : Histories}

/-- What operations make of the buffers, one after the other. -/
def run (v : Vault) (ops : List (Operation width)) : Vault := ops.foldl Operation.perform v

/-- No buffers yet, in memory that holds debris and whose blocks the system locks as it pleases. -/
def fresh (width : Width) (debris : Nat → Nat → UInt8) (grantsLock : Nat → Bool) : Vault :=
  { width, debris, grantsLock }

theorem Keeps.fresh (width : Width) (debris : Nat → Nat → UInt8) (grantsLock : Nat → Bool) :
    (fresh width debris grantsLock).Keeps width fun _ => {} where
  width_eq := rfl
  carries _ := .inl ⟨rfl, rfl⟩
  alone x y address hx := by cases hx
  held address ha := by cases ha
  unused _ _ := rfl
  strays := rfl
  blank block hblock := by cases hblock

/-- **Run**: operations keep the invariant. -/
theorem Keeps.run (hk : v.Keeps width l) (hl : l none = {}) (ops : List (Operation width)) :
    (v.run ops).Keeps width (l.run ops) ∧ l.run ops none = {} := by
  induction ops generalizing v l with
  | nil => exact ⟨hk, hl⟩
  | cons op ops ih => exact ih (hk.perform hl op) ((op.record_of_ne (by simp) l).trans hl)

/-- What holds after a run: a buffer is empty, or owns a block that has the bytes of its elements and no others; it
shows what its history says; each block in use is pointed to by one name, the temporary buffer being empty; and no
access has gone astray. -/
structure IsSound (v : Vault) (l : Histories) : Prop where
  temporary : v.handles none = {}
  owns : ∀ name, v.handles (some name) = {} ∨
    ∃ address block, (v.handles (some name)).Owns v.width v.toHeap address block
  shows : ∀ name, v.buffer name = (l (some name)).view v.width
  owned : ∀ address, (v.blocks address).isSome → ∃! name, (v.handles (some name)).pointer = some address
  strays : v.strays = 0

theorem Keeps.isSound (hk : v.Keeps width l) (hl : l none = {}) : v.IsSound l := by
  have hbuffer := hk.buffer_eq
  obtain ⟨rfl⟩ := hk.width_eq
  refine ⟨hk.handles_none hl, fun name => ?_, hbuffer, fun address hlive => ?_, hk.strays⟩
  · exact (hk.carries (some name)).imp And.left fun ⟨address, block, howns, _⟩ => ⟨address, block, howns⟩
  · obtain ⟨x, hx⟩ := hk.held address hlive
    cases x with
    | none =>
        rw [hk.handles_none hl] at hx
        cases hx
    | some name => exact ⟨name, hx, fun other hother => Option.some.inj (hk.alone _ _ address hother hx)⟩

/-- A buffer goes over from one name to another one as it is, and leaves the empty one behind. -/
structure HandsOver (v v' : Vault) (source target : Bytes) : Prop where
  handle : v'.handles (some target) = v.handles (some source)
  buffer : v'.buffer target = v.buffer source
  handle_source : v'.handles (some source) = {}
  buffer_source : v'.buffer source = ⟨0, []⟩

theorem Keeps.handsOver (hk : v.Keeps width l) {v' : Vault} {source target : Bytes} (hne : source ≠ target)
    (hk' : v'.Keeps width (l.pass source target)) (htarget : v'.handles (some target) = v.handles (some source)) :
    HandsOver v v' source target where
  handle := htarget
  buffer := by rw [hk'.buffer_eq, hk.buffer_eq, Histories.pass, if_pos rfl]
  handle_source := by
    refine (hk'.carries (some source)).eq_empty ?_
    simp [Histories.pass, hne]
  buffer_source := by
    rw [hk'.buffer_eq, Histories.pass, if_neg (by simpa using hne), if_pos rfl]
    simp [History.view, History.contents]

/-- **Buffers behave as values**: for every element width, whatever memory holds, and after every run of operations,
each buffer is empty or owns a block of exactly its elements, shows what was last written to it and zeros elsewhere,
and shares its block with no other one. What is made for a name without a buffer is made in place. A move from there
hands the buffer over, a move of a buffer onto itself changes nothing, and no operation changes a buffer that it is
not about. A buffer is refused exactly when its number of bytes is above the greatest word, and otherwise that number
is rounded up to itself. -/
theorem buffers_behave_as_values (width : Width) (debris : Nat → Nat → UInt8) (grantsLock : Nat → Bool)
    (ops : List (Operation width)) :
    let v := (Vault.fresh width debris grantsLock).run ops
    v.IsSound (Histories.run (fun _ => {}) ops) ∧
      (∀ name, v.handles (some name) = {} → v.MakesInPlace name) ∧
      (∀ source target, source ≠ target →
        v.HandsOver ((Operation.moveConstruct source target : Operation width).perform v) source target ∧
          v.HandsOver ((Operation.moveAssign source target : Operation width).perform v) source target) ∧
      (∀ name, (Operation.moveAssign name name : Operation width).perform v = v) ∧
      (∀ (op : Operation width) (name : Bytes), name ∉ op.names →
        (op.perform v).handles (some name) = v.handles (some name) ∧ (op.perform v).buffer name = v.buffer name) ∧
      (∀ (available : Nat) (heap : Heap) (n : UInt64),
        Handle.zeroed available width n heap = .error .length ↔ greatestSize.toNat < n.toNat * width.bytes) ∧
      ∀ n : UInt64, n.toNat * width.bytes ≤ greatestSize.toNat →
        (n * width.word).toNat = n.toNat * width.bytes ∧ width.roundUp (n * width.word) = .ok (n * width.word) := by
  intro v
  have hrun : v.Keeps width (Histories.run (fun _ => {}) ops) ∧ Histories.run (fun _ => {}) ops none = {} :=
    (Keeps.fresh width debris grantsLock).run rfl ops
  obtain ⟨hk, hl⟩ := hrun
  refine ⟨hk.isSound hl, fun _ => makesInPlace (hk.handles_none hl), fun source target hne => ⟨?_, ?_⟩, v.move_self,
    fun op name hname => ⟨?_, ?_⟩, fun _ _ _ => Handle.zeroed_eq_length_iff, fun n hfits => ?_⟩
  · refine hk.handsOver hne (hk.perform hl _) ?_
    simp [Operation.perform, handles_adopt, moveConstruct]
  · refine hk.handsOver hne (hk.perform hl _) ?_
    simp [Operation.perform, move, handles_moveAssign, hne, hne.symm]
  · exact handles_perform_of_not_mem hname v
  · rw [(hk.perform hl op).buffer_eq, hk.buffer_eq, op.record_of_ne]
    rintro other hother hsame
    exact hname (Option.some.inj hsame ▸ hother)
  · have hfits : n.toNat * width.bytes < UInt64.size := Nat.lt_of_le_of_lt hfits (by decide)
    exact ⟨Width.toNat_mul_word hfits, Width.roundUp_mul_word hfits⟩

example :
    [[97], [98], [99]].map ((fresh .two (fun _ _ => 165) fun _ => false).run
      ([.create 4 [97] 2, .write [97] 1 [7, 8], .createFrom 4 [98] ⟨[1, 2, 3, 4], by decide, by decide⟩,
        .moveConstruct [98] [99], .create 3 [98] 2, .moveAssign [97] [98]] : List (Operation .two))).buffer
      = [⟨0, []⟩, ⟨2, [0, 7, 8, 0]⟩, ⟨2, [1, 2, 3, 4]⟩] := by decide +kernel

/-- Whatever block is given back in a run, it is unlocked and holds nothing but zeros by then. -/
theorem returned_isBlank (width : Width) (debris : Nat → Nat → UInt8) (grantsLock : Nat → Bool)
    (ops : List (Operation width)) :
    ∀ block ∈ ((Vault.fresh width debris grantsLock).run ops).returned, block.IsBlank :=
  ((Keeps.fresh width debris grantsLock).run rfl ops).1.blank

end Vault

end SignedAudit
