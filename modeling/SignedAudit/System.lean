import SignedAudit.Event
import SignedAudit.FileTree
import SignedAudit.Instant
import SignedAudit.Provider

namespace SignedAudit

/-! # The system

All that the components share: the provider of digests and the count of its calls, the clock, the default
logger, the subscribers of the event bus, and the texts and files that are written. -/

/-- Where a logger writes. -/
inductive Sink
  | console
  | stream (name : Bytes)
  | file (place : Place)
  deriving DecidableEq, Repr

/-- A logger: where it writes, and the least severity it writes. -/
structure Logger where
  sink : Sink := .console
  minimum : Severity := .info
  deriving DecidableEq, Repr

/-- A subscriber of the event bus: the default logger, one that does nothing at all, or a listener, which
takes note of the event under its name and then reacts. -/
inductive Subscriber
  | logger
  | idle
  | recorder (name : Bytes)
  | republisher (name eventId : Bytes)
  | failing (name : Bytes) (failure : Failure)
  | recruiter (name : Bytes) (newcomer : Subscriber)
  deriving DecidableEq, Repr

/-- What the components share. -/
structure System where
  provider : Provider := .standard
  /-- How often a provider has been asked. -/
  calls : Nat := 0
  now : Instant := .epoch
  logger : Logger := {}
  subscribers : List Subscriber := [.logger]
  /-- Is the bus delivering an event? -/
  publishing : Bool := false
  /-- The events that listeners have taken note of, each with the listener's name. -/
  delivered : List (Bytes × Event) := []
  console : Bytes := []
  /-- What was written to each named stream. -/
  streams : List (Bytes × Bytes) := []
  files : FileTree := .empty

namespace System

/-- Appends a text to what a sink holds. -/
def write (s : System) (sink : Sink) (text : Bytes) : System :=
  match sink with
  | .console => { s with console := s.console ++ text }
  | .stream name =>
    let written := (s.streams.lookup name).getD []
    { s with streams := (name, written ++ text) :: s.streams.filter (·.1 != name) }
  | .file place => { s with files := s.files.append place text }

end System

end SignedAudit
