import SignedAudit.Calendar

namespace SignedAudit

/-! # Instants

An instant is a count of nanoseconds since 1970-01-01T00:00:00Z that fits a signed word of 64 bits;
the range is part of the type. An instant is split in two ways: toward the past (`wholeSeconds`,
`nanos`), where the fraction is never negative, and toward the epoch (`truncatedSeconds`,
`truncatedMicros`), where the fraction has the sign of the instant. -/

/-- A count of nanoseconds since the epoch, within 64 bits. -/
structure Instant where
  ns : Int
  lower : -9223372036854775808 ≤ ns
  upper : ns < 9223372036854775808
  deriving DecidableEq

namespace Instant

@[ext] theorem ext {a b : Instant} (h : a.ns = b.ns) : a = b := by
  cases a; cases b; simp_all

/-- The epoch itself. -/
def epoch : Instant := ⟨0, by decide, by decide⟩

/-- The instant of a count, if the count is in range. -/
def ofNs? (ns : Int) : Option Instant :=
  if h : -9223372036854775808 ≤ ns ∧ ns < 9223372036854775808 then some ⟨ns, h.1, h.2⟩ else none

/-! ## Splitting -/

/-- The whole seconds before an instant. -/
def wholeSeconds (t : Instant) : Int := t.ns / 1000000000

/-- The nanoseconds after the whole second, from 0 to 999999999. -/
def nanos (t : Instant) : Nat := (t.ns % 1000000000).toNat

/-- The seconds of an instant, rounded toward the epoch. -/
def truncatedSeconds (t : Instant) : Int := t.ns.tdiv 1000000000

/-- The microseconds that the seconds rounded toward the epoch leave, themselves so rounded. -/
def truncatedMicros (t : Instant) : Int := (t.ns.tdiv 1000).tmod 1000000

/-! ## Whole seconds that leave room for any fraction -/

/-- The earliest whole second in range. -/
def earliestSecond : Int := -9223372036

/-- The latest whole second after which a full second is in range. -/
def latestSecond : Int := 9223372035

/-- The instant of a whole second and a fraction, for whole seconds from `earliestSecond` to
`latestSecond`. -/
def ofSeconds? (seconds : Int) (nanos : Nat) : Option Instant :=
  if h : earliestSecond ≤ seconds ∧ seconds ≤ latestSecond ∧ nanos < 1000000000 then
    some ⟨seconds * 1000000000 + nanos,
      by have := h.1; unfold earliestSecond at this; omega,
      by have := h.2; unfold latestSecond at this; omega⟩
  else none

end Instant

end SignedAudit
