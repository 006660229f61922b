import SignedAudit.Bytes

namespace SignedAudit.Memory

/-! # Wiping and locking memory

Wiping overwrites every byte with zero and keeps the length. A range of memory is locked when the system
grants it; that it does not is no failure, and there is nothing to lock in an empty range. -/

/-- Zeros in place of every byte. -/
def wipe (b : Bytes) : Bytes := List.replicate b.length 0

/-- Zeros in place of the `count` bytes from `offset` on. -/
def wipeRange (b : Bytes) (offset count : Nat) : Bytes :=
  b.take offset ++ wipe ((b.drop offset).take count) ++ (b.drop offset).drop count

/-- Overwrites the bytes from an offset on. -/
def overwrite (b : Bytes) (offset : Nat) (data : Bytes) : Bytes :=
  b.take offset ++ data ++ b.drop (offset + data.length)

/-- What came of the request to lock a range. -/
inductive LockStatus
  | locked
  | bestEffort
  | unsupported
  deriving DecidableEq, Repr

/-- Can memory be locked at all? -/
def lockSupported : Bool := true

/-- The request to lock a range, which the system grants or not. -/
def lock (granted : Bool) (range : Bytes) : LockStatus :=
  if range = [] then .bestEffort
  else if !lockSupported then .unsupported
  else if granted then .locked
  else .bestEffort

end SignedAudit.Memory
