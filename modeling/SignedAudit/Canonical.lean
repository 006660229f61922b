import SignedAudit.Hex
import SignedAudit.Instant.Text

namespace SignedAudit

/-! # What is signed

Two kinds of statement are signed: an `Attestation` of an event, and a `Receipt` for a batch that was taken
in, the latter together with a nonce. The text that is signed joins the parts by bars, as they are. -/

/-- A statement about an event. -/
structure Attestation where
  eventId : Bytes
  time : Instant
  sourceIp : Bytes
  payload : Bytes
  deriving DecidableEq

/-- The text that is signed for an event. -/
def Attestation.canonical (a : Attestation) : Bytes :=
  a.eventId ++ Ascii.bar :: a.time.canonicalText ++ Ascii.bar :: a.sourceIp ++ Ascii.bar :: a.payload

/-- A value that is used once. -/
abbrev Nonce := FixedBytes 16

/-- A statement about a batch of events that was taken in. -/
structure Receipt where
  tokenId : Bytes
  sourceIp : Bytes
  eventCount : Int
  byteCount : Int
  time : Instant
  deriving DecidableEq

/-- The text that is signed for a batch. -/
def Receipt.canonical (r : Receipt) (nonce : Nonce) : Bytes :=
  r.tokenId ++ Ascii.bar :: r.sourceIp ++ Ascii.bar :: Decimal.ofInt r.eventCount
    ++ Ascii.bar :: Decimal.ofInt r.byteCount ++ Ascii.bar :: r.time.canonicalText
    ++ Ascii.bar :: Hex.encode nonce.val

end SignedAudit
