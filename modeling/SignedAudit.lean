import SignedAudit.Main
import SignedAudit.SecureBuffer
import SignedAudit.Trail
import SignedAudit.Proofs.Calendar
import SignedAudit.Proofs.Digits
import SignedAudit.Proofs.Framing
import SignedAudit.Proofs.InstantText
import SignedAudit.Proofs.Statements
import SignedAudit.Proofs.EventLine
import SignedAudit.Proofs.Reporting
import SignedAudit.Proofs.Signing
import SignedAudit.Proofs.Binding
import SignedAudit.Proofs.FailClosed
import SignedAudit.Proofs.Payload
import SignedAudit.Proofs.TamperEvidence
import SignedAudit.Proofs.Acceptance
import SignedAudit.Proofs.DayCount
import SignedAudit.Proofs.InstantGrammar
import SignedAudit.Proofs.InstantReading
import SignedAudit.Proofs.InstantRoundTrip
import SignedAudit.Proofs.Opening
import SignedAudit.Proofs.Requests
import SignedAudit.Proofs.Arguments
import SignedAudit.Proofs.Replies
import SignedAudit.Proofs.Agreement
import SignedAudit.Proofs.JsonReading
import SignedAudit.Proofs.RecordJson
import SignedAudit.Proofs.Offline
import SignedAudit.Proofs.FileTree
import SignedAudit.Proofs.Redaction
import SignedAudit.Proofs.Twins
import SignedAudit.Proofs.Secrecy
import SignedAudit.Proofs.Rendering
import SignedAudit.Proofs.LineReading
import SignedAudit.Proofs.OneLine
import SignedAudit.Proofs.Delivery
import SignedAudit.Proofs.Ledger
import SignedAudit.Proofs.Journal
import SignedAudit.Proofs.Routing
import SignedAudit.Proofs.Startup
import SignedAudit.Proofs.ConfiguredLogging
import SignedAudit.Proofs.ExitCodes
import SignedAudit.Proofs.Refusal
import SignedAudit.Proofs.Receipts
import SignedAudit.Proofs.Alarms
import SignedAudit.Proofs.Assignments
import SignedAudit.Proofs.FlagOrder
import SignedAudit.Proofs.SecretFile
import SignedAudit.Proofs.InstantWriting
import SignedAudit.Proofs.InstantOrder
import SignedAudit.Proofs.Integers
import SignedAudit.Proofs.BufferRuns
import SignedAudit.Proofs.StringEncoding
import SignedAudit.Proofs.Identifiers
import SignedAudit.Proofs.HexReading
