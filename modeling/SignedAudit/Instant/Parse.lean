import SignedAudit.Decimal
import SignedAudit.Instant

namespace SignedAudit.Instant

/-! # Reading an instant

The grammar: `YYYY-MM-DDThh:mm:ss`, optionally a point and one to nine digits, then `Z` or an offset
from UTC, `+hh:mm` or `-hh:mm`, and nothing after it. Each stage takes its part off the front of the text
and returns the rest, and the first stage that fails names the defect. Whether the date exists is
asked only of a text that has the right form. -/

/-- Why a text is not an instant. -/
inductive Defect
  | shape
  | timeOfDay
  | longFraction
  | emptyFraction
  | offset
  | noDesignator
  | trailing
  | date
  | range
  deriving DecidableEq, Repr

/-- The words for a defect. -/
def Defect.reason : Defect → Bytes
  | .shape => Bytes.ascii "expected YYYY-MM-DDTHH:MM:SS"
  | .timeOfDay => Bytes.ascii "time of day out of range"
  | .longFraction => Bytes.ascii "more than nine fractional digits"
  | .emptyFraction => Bytes.ascii "empty fraction"
  | .offset => Bytes.ascii "malformed UTC offset"
  | .noDesignator => Bytes.ascii "missing UTC designator or offset"
  | .trailing => Bytes.ascii "trailing characters"
  | .date => Bytes.ascii "invalid calendar date"
  | .range => Bytes.ascii "outside representable range"

/-- A date and a time of day, as written. -/
structure WallClock where
  date : Date
  hour : Nat
  minute : Nat
  second : Nat

/-- The seconds from the epoch to the reading of a clock at UTC. -/
def WallClock.seconds (w : WallClock) : Int :=
  w.date.dayNumber * 86400 + w.hour * 3600 + w.minute * 60 + w.second

/-! ## The parts of the text -/

/-- Takes exactly `count` digits off the front. -/
def takeNumber? (count : Nat) (text : Bytes) : Option (Nat × Bytes) :=
  let digits := text.take count
  if digits.length = count ∧ digits.all Decimal.isDigit then
    some (Decimal.value digits, text.drop count)
  else none

/-- Takes one given byte off the front. -/
def takeByte? (b : UInt8) : Bytes → Option Bytes
  | [] => none
  | c :: rest => if c = b then some rest else none

/-- Takes `YYYY-MM-DDThh:mm:ss` off the front. -/
def takeWallClock? (text : Bytes) : Option (WallClock × Bytes) := do
  let (year, text) ← takeNumber? 4 text
  let text ← takeByte? Ascii.dash text
  let (month, text) ← takeNumber? 2 text
  let text ← takeByte? Ascii.dash text
  let (day, text) ← takeNumber? 2 text
  let text ← takeByte? Ascii.upperT text
  let (hour, text) ← takeNumber? 2 text
  let text ← takeByte? Ascii.colon text
  let (minute, text) ← takeNumber? 2 text
  let text ← takeByte? Ascii.colon text
  let (second, text) ← takeNumber? 2 text
  return (⟨⟨year, month, day⟩, hour, minute, second⟩, text)

/-- Takes an optional fraction of a second off the front, and gives it in nanoseconds. -/
def takeFraction (text : Bytes) : Except Defect (Nat × Bytes) :=
  match takeByte? Ascii.point text with
  | none => .ok (0, text)
  | some text =>
    let digits := text.takeWhile Decimal.isDigit
    if digits.length > 9 then .error .longFraction
    else if digits = [] then .error .emptyFraction
    else .ok (Decimal.value digits * Nat.pow 10 (9 - digits.length), text.dropWhile Decimal.isDigit)

/-- Takes `hh:mm` off the front, at most 23:59, and gives it in minutes. -/
def takeHoursMinutes? (text : Bytes) : Option (Nat × Bytes) := do
  let (hours, text) ← takeNumber? 2 text
  let text ← takeByte? Ascii.colon text
  let (minutes, text) ← takeNumber? 2 text
  if hours ≤ 23 ∧ minutes ≤ 59 then some (hours * 60 + minutes, text) else none

/-- Takes `Z` or a signed offset off the front, and gives the minutes by which the clock is ahead of
UTC. -/
def takeOffset : Bytes → Except Defect (Int × Bytes)
  | [] => .error .noDesignator
  | sign :: rest =>
    if sign = Ascii.upperZ then .ok (0, rest)
    else if sign = Ascii.plus ∨ sign = Ascii.dash then
      match takeHoursMinutes? rest with
      | none => .error .offset
      | some (minutes, rest) => .ok (if sign = Ascii.dash then -(minutes : Int) else minutes, rest)
    else .error .noDesignator

/-! ## The whole text -/

/-- Reads a whole text as an instant. -/
def parse (text : Bytes) : Except Defect Instant :=
  match takeWallClock? text with
  | none => .error .shape
  | some (clock, text) =>
    if clock.hour > 23 ∨ clock.minute > 59 ∨ clock.second > 59 then .error .timeOfDay
    else do
      let (nanos, text) ← takeFraction text
      let (ahead, text) ← takeOffset text
      if text ≠ [] then .error .trailing
      else if !clock.date.isValid then .error .date
      else
        match ofSeconds? (clock.seconds - ahead * 60) nanos with
        | none => .error .range
        | some t => .ok t

end SignedAudit.Instant
