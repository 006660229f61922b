import SignedAudit.Decimal
import SignedAudit.Instant

namespace SignedAudit.Instant

/-! # The text of an instant

Two renderings. The canonical one, `YYYY-MM-DDThh:mm:ss.nnnnnnnnnZ`, rounds to the past and names every
nanosecond. The one of log lines, `YYYY-MM-DDThh:mm:ss.uuuuuuZ`, rounds to the epoch, and its
microseconds carry their sign behind the padding. -/

/-- A count of seconds since the epoch as `YYYY-MM-DDThh:mm:ss`. -/
def secondsText (seconds : Int) : Bytes :=
  let date := Date.ofDayNumber (seconds / 86400)
  let second := (seconds % 86400).toNat
  Decimal.fixed 4 date.year.toNat ++ [Ascii.dash] ++ Decimal.fixed 2 date.month ++ [Ascii.dash]
    ++ Decimal.fixed 2 date.day ++ [Ascii.upperT] ++ Decimal.fixed 2 (second / 3600) ++ [Ascii.colon]
    ++ Decimal.fixed 2 (second / 60 % 60) ++ [Ascii.colon] ++ Decimal.fixed 2 (second % 60)

/-- The canonical text of an instant, 30 bytes. -/
def canonicalText (t : Instant) : Bytes :=
  secondsText t.wholeSeconds ++ [Ascii.point] ++ Decimal.fixed 9 t.nanos ++ [Ascii.upperZ]

/-- The text of an instant in a log line. -/
def logText (t : Instant) : Bytes :=
  secondsText t.truncatedSeconds ++ [Ascii.point]
    ++ Decimal.padLeft 6 (Decimal.ofInt t.truncatedMicros) ++ [Ascii.upperZ]

end SignedAudit.Instant
