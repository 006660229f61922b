import SignedAudit.Cause
import SignedAudit.Effect
import SignedAudit.Event.Line
import SignedAudit.Instant.Text

namespace SignedAudit

/-! # Logging

A logger drops events below its least severity and appends one line for each other event to its sink. If
the provider fails with a fault while the line is written, a report of the loss goes to the console in
place of the line; any other failure is passed on. Opening a log file never changes what the file holds,
and a logger whose file cannot be opened stays as it was. -/

namespace Logger

open Effect

/-- The report of an event that is lost because its line could not be written. -/
def lossReport (f : Failure) : Bytes :=
  Json.object
    [Json.member (Bytes.ascii "event") (Json.quoted (Bytes.ascii "logger_error")),
      Json.member (Bytes.ascii "message") (Json.quoted f.what)] ++ [Ascii.newline]

/-- Logs an event. -/
def log (logger : Logger) (e : Event) : Effect Unit := do
  if e.severity.rank < logger.minimum.rank then return
  let time := (← get).now.logText
  match ← attempt (consult fun p => e.logLine? p time) with
  | .ok (some line) => write logger.sink (line ++ [Ascii.newline])
  | .ok none => return
  | .error (.fault f) => write .console (lossReport (.fault f))
  | .error (.other message) => throw (.other message)

/-- The logger with a file as its sink. -/
def openFile (logger : Logger) (path : Bytes) : Effect Logger := do
  let s ← get
  match s.files.openAppend path.untilZero with
  | .error error => throw (Cause.logFileUnwritable path error).failure
  | .ok (place, files) =>
    set { s with files }
    return { logger with sink := .file place }

/-- The logger with a named stream as its sink, or the console. -/
def useStream (logger : Logger) (stream : Option Bytes) : Logger :=
  { logger with sink := (stream.map Sink.stream).getD .console }

/-- The logger with another least severity. -/
def withMinimum (logger : Logger) (minimum : Severity) : Logger := { logger with minimum }

end Logger

end SignedAudit
