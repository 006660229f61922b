import SignedAudit.Config
import SignedAudit.Signer

namespace SignedAudit

/-! # The command line

Four commands: `sign` and `verify` for statements about events, `sign-ingestion` for receipts, and
`timestamp`, which shows the canonical text of an instant. All arguments after the command are flags with
a value; of several values for one flag the last one counts. A run ends with a `Reply`: an exit code, what
goes to the standard output, and what goes to the standard error. The exit code is 0 for success, 1 for a
signature that does not fit, 2 for a wrong use or input, and 3 for any other failure. -/

/-! ## Flags -/

/-- A flag of the command line. -/
inductive Flag
  | eventId
  | timestamp
  | sourceIp
  | payload
  | payloadFile
  | signature
  | tokenId
  | eventCount
  | byteCount
  deriving DecidableEq, Repr

namespace Flag

/-- All flags. -/
def all : List Flag :=
  [eventId, timestamp, sourceIp, payload, payloadFile, signature, tokenId, eventCount, byteCount]

/-- How a flag is written, up to its value. -/
def spelling : Flag → Bytes
  | eventId => Bytes.ascii "--event-id="
  | timestamp => Bytes.ascii "--timestamp="
  | sourceIp => Bytes.ascii "--source-ip="
  | payload => Bytes.ascii "--payload="
  | payloadFile => Bytes.ascii "--payload-file="
  | signature => Bytes.ascii "--signature="
  | tokenId => Bytes.ascii "--token-id="
  | eventCount => Bytes.ascii "--event-count="
  | byteCount => Bytes.ascii "--bytes="

/-- The value in an argument that is written for this flag. -/
def valueIn? (f : Flag) (argument : Bytes) : Option Bytes :=
  if f.spelling.isPrefixOf argument then some (argument.drop f.spelling.length) else none

/-- Reads an argument as a flag and its value. -/
def ofArgument? (argument : Bytes) : Option (Flag × Bytes) :=
  all.findSome? fun f => (f.valueIn? argument).map fun value => (f, value)

end Flag

/-- The flags that are given with their values, in the order of the arguments. -/
abbrev Options := List (Flag × Bytes)

namespace Options

/-- Reads arguments as flags; `none` if one of them is not a flag. -/
def ofArguments? (arguments : List Bytes) : Option Options := arguments.mapM Flag.ofArgument?

/-- The last value of a flag. -/
def value? (o : Options) (f : Flag) : Option Bytes := o.reverse.lookup f

end Options

/-! ## Replies -/

/-- How a run ends. -/
structure Reply where
  exit : Nat
  output : Bytes := []
  errors : Bytes := []
  deriving DecidableEq, Repr

namespace Reply

/-- The description of the commands. -/
def usageText : Bytes := Bytes.ascii
  "Usage:
  hs-audit sign --event-id=<id> --timestamp=<iso8601> --source-ip=<ip>
                (--payload=<text> | --payload-file=<path>)
  hs-audit verify --event-id=<id> --timestamp=<iso8601> --source-ip=<ip>
                  (--payload=<text> | --payload-file=<path>) --signature=<hex>
  hs-audit sign-ingestion --token-id=<id> --source-ip=<ip> --event-count=<n>
                          --bytes=<n> [--timestamp=<iso8601>]
  hs-audit timestamp --timestamp=<iso8601>

The signing secret comes from HS_AUDIT_SECRET or HS_AUDIT_SECRET_FILE.
"

/-- The answer to a wrong use. -/
def usage : Reply := { exit := 2, output := usageText }

/-- Success with one line of output. -/
def line (text : Bytes) : Reply := { exit := 0, output := text ++ [Ascii.newline] }

/-- The answer of a verification. -/
def verdict (valid : Bool) : Reply :=
  if valid then line (Bytes.ascii "valid")
  else { exit := 1, output := Bytes.ascii "invalid" ++ [Ascii.newline] }

/-- The answer to a signature that has not even the form of one. -/
def malformedSignature : Reply :=
  { verdict false with
    errors := Bytes.ascii "Signature is not 64 lowercase hex characters" ++ [Ascii.newline] }

/-- The answer to a failure. -/
def ofFailure (f : Failure) : Reply :=
  match f with
  | .fault fault =>
    { exit := if fault.domain = .validation then 2 else 3,
      errors := Bytes.ascii "Error: " ++ f.what ++ [Ascii.newline] }
  | .other _ => { exit := 3, errors := Bytes.ascii "Fatal: " ++ f.what ++ [Ascii.newline] }

end Reply

/-! ## Commands -/

/-- A command. -/
inductive Command
  | sign
  | verify
  | signIngestion
  | timestamp
  deriving DecidableEq, Repr

/-- What a run is given: the arguments, the environment, and a random value for a nonce. -/
structure Invocation where
  arguments : List Bytes
  environment : Environment
  nonce : Nonce

namespace Command

open Effect

/-- The name of a command. -/
def name : Command → Bytes
  | sign => Bytes.ascii "sign"
  | verify => Bytes.ascii "verify"
  | signIngestion => Bytes.ascii "sign-ingestion"
  | timestamp => Bytes.ascii "timestamp"

/-- The command of exactly this name. -/
def ofName? (text : Bytes) : Option Command :=
  [sign, verify, signIngestion, timestamp].find? fun c => text == c.name

/-- Reads the text of an instant. -/
def readInstant (text : Bytes) : Effect Instant :=
  match Instant.parse text with
  | .ok t => return t
  | .error defect => throw (Cause.malformedTimestamp text defect).failure

/-- Reads the value of a flag as an integer of so many bits. -/
def readInteger (bits : Nat) (f : Flag) (text : Bytes) : Effect Int :=
  match Decimal.word? bits text with
  | some n => return n
  | none => throw (Cause.malformedInteger f.spelling text).failure

/-- The payload: exactly one of a text and a file has to be given. A file is read in pieces of 4096 bytes. -/
def readPayload (o : Options) : Effect (Option Bytes) := do
  match o.value? .payload, o.value? .payloadFile with
  | some payload, none => return some payload
  | none, some path =>
    match (← get).files.readInPieces 4096 (by decide) path with
    | .ok content => return some content
    | .error error => throw (Cause.payloadFileUnreadable path error).failure
  | _, _ => return none

/-- The signer that the environment configures, after logging was directed as configured. -/
def openSigner (i : Invocation) : Effect Signer := do
  let config ← Config.load i.environment
  config.apply
  Signer.create config.secret fun _ _ => .ok i.nonce

/-- Signs a statement about an event. -/
def runSign (i : Invocation) (o : Options) : Effect Reply := do
  match o.value? .eventId, o.value? .timestamp, o.value? .sourceIp with
  | some eventId, some instant, some sourceIp =>
    let time ← readInstant instant
    match ← readPayload o with
    | none => return .usage
    | some payload =>
      let signer ← openSigner i
      return .line (← signer.sign ⟨eventId, time, sourceIp, payload⟩)
  | _, _, _ => return .usage

/-- Verifies a statement about an event. A signature that has not the form of one is rejected before
anything is read. -/
def runVerify (i : Invocation) (o : Options) : Effect Reply := do
  match o.value? .eventId, o.value? .timestamp, o.value? .sourceIp, o.value? .signature with
  | some eventId, some instant, some sourceIp, some signature =>
    let time ← readInstant instant
    if !Signature.isWellFormed signature then return .malformedSignature
    match ← readPayload o with
    | none => return .usage
    | some payload =>
      let signer ← openSigner i
      return .verdict (← signer.verify ⟨eventId, time, sourceIp, payload⟩ signature)
  | _, _, _, _ => return .usage

/-- Signs a receipt, for the present time if no other is given. -/
def runSignIngestion (i : Invocation) (o : Options) : Effect Reply := do
  match o.value? .tokenId, o.value? .sourceIp, o.value? .eventCount, o.value? .byteCount with
  | some tokenId, some sourceIp, some eventCount, some byteCount =>
    let eventCount ← readInteger 32 .eventCount eventCount
    let byteCount ← readInteger 64 .byteCount byteCount
    let time ← match o.value? .timestamp with
      | some instant => readInstant instant
      | none => pure (← get).now
    let signer ← openSigner i
    let (signature, _) ← signer.signReceipt ⟨tokenId, sourceIp, eventCount, byteCount, time⟩
    return .line (← Effect.ofExcept signature)
  | _, _, _, _ => return .usage

/-- Shows the canonical text of an instant. -/
def runTimestamp (o : Options) : Effect Reply := do
  match o.value? .timestamp with
  | some instant => return .line (← readInstant instant).canonicalText
  | none => return .usage

/-- Runs a command. -/
def run (i : Invocation) (o : Options) : Command → Effect Reply
  | sign => runSign i o
  | verify => runVerify i o
  | signIngestion => runSignIngestion i o
  | timestamp => runTimestamp o

end Command

namespace Invocation

/-- What the run reads of the invocation: arguments and variables end at their first zero byte. -/
def zeroTerminated (i : Invocation) : Invocation :=
  { i with
    arguments := i.arguments.map Bytes.untilZero
    environment := {
      secret := i.environment.secret.map Bytes.untilZero
      secretFile := i.environment.secretFile.map Bytes.untilZero
      logMinSeverity := i.environment.logMinSeverity.map Bytes.untilZero
      logFile := i.environment.logFile.map Bytes.untilZero } }

/-- Runs the command that the first argument names. The flags are read before the command is looked at. -/
def act (i : Invocation) : Effect Reply :=
  match i.arguments with
  | [] => return .usage
  | name :: flags =>
    match Options.ofArguments? flags, Command.ofName? name with
    | some o, some command => command.run i o
    | _, _ => return .usage

/-- The reply to an invocation, and the system after it. -/
def run (i : Invocation) (s : System) : Reply × System :=
  match i.zeroTerminated.act.perform s with
  | (.ok reply, s) => (reply, s)
  | (.error failure, s) => (.ofFailure failure, s)

end Invocation

end SignedAudit
