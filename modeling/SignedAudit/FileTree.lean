import SignedAudit.Bytes

namespace SignedAudit

/-! # File trees

A tree of directories and regular files, and the paths that lead through it. A path is walked name by
name from the root or from the working directory; `.` stays, `..` goes up (from the root, nowhere), and
repeated slashes count as one. The walk stops at the first name that cannot be looked up. Opening a
file to append to it creates it if it is missing and never touches what it holds. -/

/-- Why a path cannot be opened. -/
inductive PathError
  | noEntry
  | notDirectory
  | isDirectory
  | nameTooLong
  deriving DecidableEq, Repr

/-- The number that the operating system gives an error. -/
def PathError.number : PathError → Int
  | noEntry => 2
  | notDirectory => 20
  | isDirectory => 21
  | nameTooLong => 36

/-- What a place in a tree holds. -/
inductive Node
  | file (content : Bytes)
  | directory
  deriving DecidableEq, Repr

/-- A place in a tree: the names that lead to it from the root. -/
abbrev Place := List Bytes

/-- A tree of files. The root is always a directory. -/
structure FileTree where
  nodes : List (Place × Node)
  /-- The working directory, where relative paths begin. -/
  home : Place

namespace FileTree

/-- What a place holds. -/
def node? (t : FileTree) (p : Place) : Option Node :=
  if p = [] then some .directory else t.nodes.lookup p

/-- Puts something at a place. -/
def put (t : FileTree) (p : Place) (n : Node) : FileTree :=
  { t with nodes := (p, n) :: t.nodes.filter (·.1 != p) }

/-- A tree with an empty working directory. -/
def empty : FileTree :=
  let parent := Bytes.ascii "tmp"
  let home := Bytes.ascii "work"
  ⟨[([parent], .directory), ([parent, home], .directory)], [parent, home]⟩

/-! ## Walking a path -/

/-- A single dot, the name of the place itself. -/
def dot : Bytes := [Ascii.point]

/-- Two dots, the name of the directory above. -/
def dotDot : Bytes := [Ascii.point, Ascii.point]

/-- The parts of a text between slashes. -/
def splitSlashes : Bytes → List Bytes
  | [] => [[]]
  | b :: rest =>
    if b = Ascii.slash then [] :: splitSlashes rest
    else
      match splitSlashes rest with
      | [] => [[b]]
      | name :: names => (b :: name) :: names

/-- The names of a path. -/
def names (path : Bytes) : List Bytes := (splitSlashes path).filter (· ≠ [])

/-- Does a path end in a slash? -/
def endsInSlash (path : Bytes) : Bool := path.getLast? == some Ascii.slash

/-- Looks up one name. Only a directory has names in it, and a name has at most 255 bytes. The place it
leads to need not hold anything. -/
def step (t : FileTree) (p : Place) (name : Bytes) : Except PathError Place :=
  match t.node? p with
  | none => .error .noEntry
  | some (.file _) => .error .notDirectory
  | some .directory =>
    if name = dot then .ok p
    else if name = dotDot then .ok p.dropLast
    else if name.length > 255 then .error .nameTooLong
    else .ok (p ++ [name])

/-- Walks along names to the place they lead to. A path has at most 4095 bytes, and at least one. -/
def walk (t : FileTree) (path : Bytes) (names : List Bytes) : Except PathError Place :=
  if path = [] then .error .noEntry
  else if path.length ≥ 4096 then .error .nameTooLong
  else names.foldlM t.step (if path.head? = some Ascii.slash then [] else t.home)

/-! ## Reading and appending -/

/-- The content of the regular file at the end of a path. -/
def read (t : FileTree) (path : Bytes) : Except PathError Bytes := do
  let place ← t.walk path (names path)
  match t.node? place with
  | none => .error .noEntry
  | some .directory => .error .isDirectory
  | some (.file content) => if endsInSlash path then .error .notDirectory else .ok content

/-- Opens a file to append to it, and creates it if it is missing: the place of the file and the tree
afterwards. A path that ends in a slash can only name a directory. -/
def openAppend (t : FileTree) (path : Bytes) : Except PathError (Place × FileTree) := do
  let along := if endsInSlash path then (names path).dropLast ++ [dot] else names path
  let place ← t.walk path along
  match t.node? place with
  | some .directory => .error .isDirectory
  | some (.file _) => .ok (place, t)
  | none => .ok (place, t.put place (.file []))

/-- Appends to the regular file at a place. -/
def append (t : FileTree) (p : Place) (text : Bytes) : FileTree :=
  match t.node? p with
  | some (.file content) => t.put p (.file (content ++ text))
  | _ => t

/-! ## Preparing a tree -/

/-- Writes a whole file, replacing what it held. -/
def write (t : FileTree) (path content : Bytes) : Except PathError FileTree := do
  let (place, t) ← t.openAppend path
  return t.put place (.file content)

/-- Makes a directory where nothing is. -/
def makeDirectory (t : FileTree) (path : Bytes) : Except PathError FileTree := do
  let place ← t.walk path (names path)
  match t.node? place with
  | none => .ok (t.put place .directory)
  | some _ => .ok t

end FileTree

end SignedAudit
