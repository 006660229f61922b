import SignedAudit.Command
import Std.Time.DateTime.Timestamp

/-! # The program

Reads the arguments, the environment, the clock and the files that the invocation names, runs the
invocation on them, and writes what the run has written. -/

namespace SignedAudit.Main

/-- A text of the operating system as bytes. -/
def bytesOf (text : String) : Bytes := text.toUTF8.toList

/-- Bytes as an array that can be written. -/
def arrayOf (b : Bytes) : ByteArray := ⟨b.toArray⟩

/-- Bytes as a path of the operating system. -/
def pathOf (b : Bytes) : String := (String.fromUTF8? (arrayOf b.untilZero)).getD ""

/-- A variable of the environment. -/
def readVariable (name : String) : IO (Option Bytes) := return (← IO.getEnv name).map bytesOf

/-- The environment of the process. -/
def readEnvironment : IO Environment := do
  return {
    secret := ← readVariable "HS_AUDIT_SECRET"
    secretFile := ← readVariable "HS_AUDIT_SECRET_FILE"
    logMinSeverity := ← readVariable "HS_LOG_MIN_SEVERITY"
    logFile := ← readVariable "HS_LOG_FILE" }

/-- The paths that a run may open. -/
def pathsOf (i : Invocation) : List Bytes :=
  i.environment.secretFile.toList ++ i.environment.logFile.toList
    ++ i.arguments.filterMap Flag.payloadFile.valueIn?

/-- What is found at a path. -/
def nodeAt? (path : String) : IO (Option Node) := do
  try
    if ← (← IO.FS.realPath path).isDir then return some .directory
    return some (.file (← IO.FS.readBinFile path).toList)
  catch _ => return none

/-- The parts of a path, each with the names that lead to it. -/
def stagesOf (path : Bytes) : List (Bytes × List Bytes) :=
  let names := FileTree.names path
  let start : Bytes := if path.head? = some Ascii.slash then [Ascii.slash] else []
  (List.range names.length).map fun n =>
    let upTo := names.take (n + 1)
    (start ++ [Ascii.slash].intercalate upTo, upTo)

/-- A tree that holds what is found along a path. -/
def lookAlong (t : FileTree) (path : Bytes) : IO FileTree :=
  (stagesOf path).foldlM (fun t (stage, names) => do
    match t.walk path names, ← nodeAt? (pathOf stage) with
    | .ok place, some node => return t.put place node
    | _, _ => return t) t

/-- The present time. -/
def readClock : IO Instant := do
  return (Instant.ofNs? (← Std.Time.Timestamp.now).toNanosecondsSinceUnixEpoch.val).getD .epoch

/-- A random value for a nonce. -/
def readNonce : IO Nonce := do
  return (FixedBytes.ofBytes? 16 (← IO.getRandomBytes 16).toList).getD (.zero 16)

/-- Writes to the log file what the run has appended to it. -/
def saveLog (path : Bytes) (before after : FileTree) : IO Unit := do
  match after.openAppend path with
  | .ok (place, _) =>
    match after.node? place with
    | some (.file content) =>
      let held := match before.node? place with
        | some (.file old) => old.length
        | _ => 0
      let handle ← IO.FS.Handle.mk (pathOf path) .append
      handle.write (arrayOf (content.drop held))
    | _ => return
  | .error _ => return

/-- Runs the program: the exit code. -/
def run (arguments : List String) : IO UInt32 := do
  let i : Invocation :=
    { arguments := arguments.map bytesOf, environment := ← readEnvironment, nonce := ← readNonce }
  let files ← (pathsOf i).foldlM lookAlong FileTree.empty
  let (reply, s) := i.run { now := ← readClock, files }
  if let some path := i.environment.logFile then
    if path ≠ [] then saveLog path files s.files
  (← IO.getStderr).write (arrayOf (s.console ++ reply.errors))
  (← IO.getStdout).write (arrayOf reply.output)
  return reply.exit.toUInt32

end SignedAudit.Main

/-- The entry point of the program. -/
def main (arguments : List String) : IO UInt32 := SignedAudit.Main.run arguments
