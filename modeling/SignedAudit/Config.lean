import SignedAudit.Bus
import SignedAudit.FileReader

namespace SignedAudit

/-! # Configuration

The secret comes from one of two variables, and exactly one of them has to be set; an empty value counts as
set. Two more variables choose the log file and the least severity. The faults are looked for in a fixed
order: the choice of the secret's source, the severity, the secret file. -/

/-- The variables that are read; `none` is a variable that is not set. -/
structure Environment where
  secret : Option Bytes := none
  secretFile : Option Bytes := none
  logMinSeverity : Option Bytes := none
  logFile : Option Bytes := none

/-- What a configuration determines. -/
structure Config where
  secret : Bytes
  logFile : Option Bytes
  minimum : Severity
  deriving DecidableEq

namespace Config

open Effect

/-- Where the secret comes from. -/
inductive Source
  | inline (secret : Bytes)
  | file (path : Bytes)
  deriving DecidableEq

/-- The variable of a source. -/
def Source.variable : Source → Bytes
  | .inline _ => Bytes.ascii "HS_AUDIT_SECRET"
  | .file _ => Bytes.ascii "HS_AUDIT_SECRET_FILE"

/-- The one source of the secret that is set. -/
def source? (env : Environment) : Except Cause Source :=
  match env.secret, env.secretFile with
  | some _, some _ => .error .secretAmbiguous
  | none, none => .error .secretMissing
  | some secret, none => .ok (.inline secret)
  | none, some path => .ok (.file path)

/-- The least severity that is asked for; it is `info` if nothing is. -/
def minimum? (env : Environment) : Except Cause Severity :=
  match env.logMinSeverity with
  | none => .ok .info
  | some text =>
    match Severity.ofName? text with
    | none => .error (.unknownSeverity text)
    | some severity => .ok severity

/-- The log file that is asked for; an empty name asks for none. -/
def logFile? (env : Environment) : Option Bytes := env.logFile.filter (· ≠ [])

/-- A secret as it stands in a file: one line end after it, LF or CR LF, does not belong to it. -/
def dropLineEnd (content : Bytes) : Bytes :=
  if content.getLast? = some Ascii.newline then
    let rest := content.dropLast
    if rest.getLast? = some Ascii.carriageReturn then rest.dropLast else rest
  else content

/-- The secret of a source. A file is read in pieces of 256 bytes. -/
def Source.read (files : FileTree) : Source → Except Cause Bytes
  | .inline secret => .ok secret
  | .file path =>
    match files.readInPieces 256 (by decide) path.untilZero with
    | .error error => .error (.secretFileUnreadable path error)
    | .ok content => .ok (dropLineEnd content)

/-- The secret that stands in examples. -/
def placeholder : Bytes := Bytes.ascii "change-this-in-production"

/-- Is the secret empty or the one of the examples? -/
def isWeak (secret : Bytes) : Bool := secret == [] || secret == placeholder

/-- The event that a secret is weak. -/
def weakEvent (source : Source) (keyBytes : Nat) : Event where
  category := .security
  severity := .warning
  id := Bytes.ascii "weak_audit_secret"
  message := Bytes.ascii "Audit secret is empty or a known placeholder"
  fields := [
    { key := Bytes.ascii "source", value := source.variable },
    { key := Bytes.ascii "key_bytes", value := Decimal.ofNat keyBytes, numeric := true }]

/-- The configuration that an environment and the files hold, and the source of its secret. -/
def read (env : Environment) (files : FileTree) : Except Cause (Config × Source) := do
  let source ← source? env
  let minimum ← minimum? env
  let secret ← source.read files
  return ({ secret, logFile := logFile? env, minimum }, source)

/-- Loads the configuration, and reports a weak secret. -/
def load (env : Environment) : Effect Config := do
  match read env (← get).files with
  | .error cause => throw cause.failure
  | .ok (config, source) =>
    if isWeak config.secret then Bus.publish (weakEvent source config.secret.length)
    return config

/-- Directs the default logger to the log file, if there is one, and sets its least severity. -/
def apply (config : Config) : Effect Unit := do
  if let some path := config.logFile then
    let logger ← (← get).logger.openFile path
    modify fun s => { s with logger }
  modify fun s => { s with logger := s.logger.withMinimum config.minimum }

end Config

end SignedAudit
