import SignedAudit.FileTree

namespace SignedAudit

/-! # Reading files in pieces

A file that is open for reading gives out its content piece by piece. A read that finds fewer bytes than it asks
for brings what there is and comes to the end; a read that the system refuses brings nothing. After either, no
read brings anything. Whoever wants the whole content asks for pieces of one size until nothing comes. -/

/-- A file that is open for reading. -/
structure FileReader where
  /-- What is still to be read. -/
  rest : Bytes
  /-- The error behind it, with which the system refuses to read on; without one, the file ends there. -/
  error? : Option PathError := none
  /-- Has a read come to the end, or was one refused? -/
  stopped : Bool := false
  /-- The error with which a read was refused. -/
  refusal? : Option PathError := none
  deriving DecidableEq, Repr

namespace FileReader

/-- Reads a piece of at most `size` bytes. -/
def read (size : Nat) (r : FileReader) : Bytes × FileReader :=
  if r.stopped then ([], r)
  else if size ≤ r.rest.length then (r.rest.take size, { r with rest := r.rest.drop size })
  else
    match r.error? with
    | none => (r.rest, { r with rest := [], stopped := true })
    | some error => ([], { r with rest := [], stopped := true, refusal? := some error })

/-- Does reading go on after a read? It does if the read brought all that it asked for, or anything at all. -/
def goesOn (read : Bytes × FileReader) : Bool := !read.2.stopped || !read.1.isEmpty

/-- A read after which reading goes on has taken something off. -/
theorem length_rest_lt {size : Nat} (hsize : 0 < size) {r : FileReader} (h : goesOn (r.read size) = true) :
    (r.read size).2.rest.length < r.rest.length := by
  revert h
  unfold read goesOn
  split
  · simp_all
  · split
    · simp only [List.length_drop]
      omega
    · cases r.error? with
      | none => simp [List.length_pos_iff]
      | some error => simp

/-- Reads pieces of `size` bytes until nothing comes, and puts them behind what was read before. -/
def gather (size : Nat) (hsize : 0 < size) (before : Bytes) (r : FileReader) : Bytes × FileReader :=
  let read := r.read size
  if goesOn read then gather size hsize (before ++ read.1) read.2 else (before, read.2)
termination_by r.rest.length
decreasing_by exact length_rest_lt hsize ‹_›

/-- The whole content, if no read is refused. -/
def content (size : Nat) (hsize : 0 < size) (r : FileReader) : Except PathError Bytes :=
  let (bytes, last) := r.gather size hsize []
  match last.refusal? with
  | some error => .error error
  | none => .ok bytes

end FileReader

namespace FileTree

/-- Opens a file to read it. A directory can be opened, too, but the system refuses to read it. -/
def openRead (t : FileTree) (path : Bytes) : Except PathError FileReader := do
  let place ← t.walk path (names path)
  match t.node? place with
  | none => .error .noEntry
  | some .directory => .ok { rest := [], error? := some .isDirectory }
  | some (.file content) => if endsInSlash path then .error .notDirectory else .ok { rest := content }

/-- Reads a file in pieces of `size` bytes. -/
def readInPieces (size : Nat) (hsize : 0 < size) (t : FileTree) (path : Bytes) : Except PathError Bytes := do
  (← t.openRead path).content size hsize

end FileTree

end SignedAudit
