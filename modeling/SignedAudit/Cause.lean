import SignedAudit.Failure
import SignedAudit.FileTree
import SignedAudit.Instant.Parse

namespace SignedAudit

/-! # What this library itself fails for

Each reason is a constructor that holds what the message names; `Cause.fault` is the one place where a
reason is put into words, a code and an advice on trying again. -/

/-- The reasons for which this library itself fails. -/
inductive Cause
  | malformedTimestamp (text : Bytes) (defect : Instant.Defect)
  | malformedInteger (flag text : Bytes)
  | secretMissing
  | secretAmbiguous
  | unknownSeverity (text : Bytes)
  | secretFileUnreadable (path : Bytes) (error : PathError)
  | logFileUnwritable (path : Bytes) (error : PathError)
  | payloadFileUnreadable (path : Bytes) (error : PathError)
  deriving DecidableEq, Repr

namespace Cause

open Bytes

/-- A text between single quotes. -/
def quote (text : Bytes) : Bytes := [Ascii.apostrophe] ++ text ++ [Ascii.apostrophe]

/-- The message for a reason. -/
def message : Cause → Bytes
  | malformedTimestamp text defect =>
    ascii "Malformed ISO-8601 timestamp " ++ quote text ++ ascii ": " ++ defect.reason
  | malformedInteger flag text => ascii "Malformed integer argument " ++ flag ++ quote text
  | secretMissing =>
    ascii "No audit secret configured: set HS_AUDIT_SECRET or HS_AUDIT_SECRET_FILE"
  | secretAmbiguous => ascii "Both HS_AUDIT_SECRET and HS_AUDIT_SECRET_FILE are set"
  | unknownSeverity text => ascii "Unknown log severity: " ++ text
  | secretFileUnreadable path _ => ascii "Unable to read audit secret file: " ++ path
  | logFileUnwritable path _ => ascii "Unable to open log file: " ++ path
  | payloadFileUnreadable path _ => ascii "Unable to read payload file: " ++ path

/-- The fault for a reason. A secret file and a log file may become usable; all else stays as it is. -/
def fault (c : Cause) : Fault :=
  match c with
  | malformedTimestamp _ _ => { domain := .validation, code := 0x401, message := c.message }
  | malformedInteger _ _ => { domain := .validation, code := 0x402, message := c.message }
  | secretMissing => { domain := .config, code := 0x501, message := c.message }
  | secretAmbiguous => { domain := .config, code := 0x502, message := c.message }
  | unknownSeverity _ => { domain := .config, code := 0x503, message := c.message }
  | secretFileUnreadable _ error =>
    { domain := .io, code := 0x201, message := c.message, native := some error.number,
      retry := .retryable }
  | logFileUnwritable _ error =>
    { domain := .io, code := 0x202, message := c.message, native := some error.number,
      retry := .retryable }
  | payloadFileUnreadable _ error =>
    { domain := .io, code := 0x203, message := c.message, native := some error.number }

/-- A reason as a failure. -/
def failure (c : Cause) : Failure := .fault c.fault

end Cause

end SignedAudit
