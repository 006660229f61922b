import SignedAudit.Proofs.InstantRoundTrip
import SignedAudit.Proofs.InstantWords

namespace SignedAudit

/-! # Writing instants

The two texts of an instant split it in two ways. The canonical one is computed from a division toward zero, which
a correction turns into one toward the past; in signed words nothing overflows on the way, at neither end of the
range. The text in a log line stays with the division toward zero, so that the two show the same microseconds from
the epoch on, and before the epoch on whole seconds only: in between they are in different seconds. -/

/-! ## Numerals that are filled up with zeros -/

namespace Decimal

theorem fixed_zero (width : Nat) : fixed width 0 = List.replicate width Ascii.zero := by
  induction width with
  | zero => rfl
  | succ width ih =>
      rw [fixed, Nat.zero_div, ih, List.replicate_succ']
      rfl

/-- A numeral of at most so many digits is filled up to the numeral of that width. -/
theorem padLeft_ofNat {width n : Nat} (hwidth : 0 < width) (h : n < 10 ^ width) :
    padLeft width (ofNat n) = fixed width n := by
  induction width generalizing n with
  | zero => exact absurd hwidth (Nat.lt_irrefl 0)
  | succ width ih =>
      rw [fixed, ofNat]
      by_cases hn : n < 10
      · rw [if_pos hn, Nat.div_eq_of_lt hn, Nat.mod_eq_of_lt hn, fixed_zero]
        rfl
      · -- the last digit stands on both sides, and the digits in front of it are filled up
        have hfront : n / 10 < 10 ^ width := by
          rw [Nat.pow_succ] at h
          omega
        have hpos : 0 < width := by
          rcases Nat.eq_zero_or_pos width with rfl | hpos
          · omega
          · exact hpos
        rw [if_neg hn, ← ih hpos hfront]
        simp only [padLeft, List.length_append, List.length_singleton, Nat.add_sub_add_right,
          List.append_assoc]

/-- The first digits of a numeral make the numeral of what is left of the number. -/
theorem take_fixed (width cut n : Nat) : (fixed (width + cut) n).take width = fixed width (n / 10 ^ cut) := by
  induction cut generalizing n with
  | zero => rw [Nat.add_zero, Nat.pow_zero, Nat.div_one, List.take_of_length_le (Nat.le_of_eq (length_fixed width n))]
  | succ cut ih =>
      have hle : width ≤ (fixed (width + cut) (n / 10)).length := by
        rw [length_fixed]
        exact Nat.le_add_right width cut
      rw [← Nat.add_assoc, fixed, List.take_append_of_le_length hle, ih, Nat.pow_succ', Nat.div_div_eq_div_mul]

/-- A numeral of an integer that is filled up with zeros behind its sign. -/
def zeroFilled (width : Nat) : Int → Bytes
  | .ofNat n => padLeft width (ofNat n)
  | .negSucc n => Ascii.dash :: padLeft (width - 1) (ofNat (n + 1))

theorem zeroFilled_natCast {width n : Nat} (hwidth : 0 < width) (h : n < 10 ^ width) :
    zeroFilled width n = fixed width n := padLeft_ofNat hwidth h

end Decimal

namespace Instant

open Decimal InWords

/-! ## The two ways to split an instant -/

/-- Toward zero is toward the past from the epoch on and on whole seconds, and else one second later. -/
theorem truncatedSeconds_eq (t : Instant) :
    t.truncatedSeconds
      = t.wholeSeconds + if 0 ≤ t.ns ∨ 1000000000 ∣ t.ns then 0 else 1 := Int.tdiv_eq_ediv

/-- What is left is the nanoseconds of the second, or their distance to the next one. -/
theorem tmod_ns_eq (t : Instant) :
    t.ns.tmod 1000000000
      = t.nanos - (if 0 ≤ t.ns ∨ 1000000000 ∣ t.ns then 0 else 1000000000 : Nat) := by
  have hnanos : (t.nanos : Int) = t.ns % 1000000000 := by
    unfold nanos
    omega
  rw [hnanos]
  exact Int.tmod_eq_emod

theorem hasFourDigitYear_truncatedSeconds (t : Instant) : HasFourDigitYear t.truncatedSeconds := by
  have hlower := t.lower
  have hupper := t.upper
  have hseconds : -9223372037 ≤ t.truncatedSeconds ∧ t.truncatedSeconds ≤ 9223372037 := by
    rw [truncatedSeconds_eq]
    unfold wholeSeconds
    split <;> omega
  generalize t.truncatedSeconds = seconds at hseconds
  unfold HasFourDigitYear Calendar.yearOfDay
  simp only
  split
  · omega
  · split <;> omega

/-! ## The canonical text in words -/

/-- A number on the way that is kept in a signed word of 32 bits. -/
def fitHalf (n : Int) : InWords Int := if -(2 ^ 31) ≤ n ∧ n < 2 ^ 31 then pure n else ExceptT.mk none

theorem yields_fitHalf {n : Int} (hlower : -(2 ^ 31) ≤ n) (hupper : n < 2 ^ 31) : Yields (fitHalf n) (.ok n) := by
  unfold fitHalf
  rw [if_pos ⟨hlower, hupper⟩]
  exact yields_pure n

/-- Splits a count of nanoseconds by a division toward zero, and takes a second back where what is left is
negative. -/
def splitInWords (ns : Int) : InWords (Int × Int) := do
  let seconds ← fit (ns.tdiv 1000000000)
  let nanos ← fit (ns.tmod 1000000000)
  if nanos < 0 then
    let nanos ← fit (nanos + 1000000000)
    return (← fit (seconds - 1), nanos)
  else return (seconds, nanos)

/-- **The canonical text**, computed in words: the seconds are split in 64 bits, the calendar hands over years since
1900 and months since January in 32 bits, and what is printed with zeros in front is cut to a buffer of 64 bytes
with a zero byte at its end. -/
def canonicalTextInWords (t : Instant) : InWords Bytes := do
  let (seconds, nanos) ← splitInWords t.ns
  let date := Date.ofDayNumber (seconds / 86400)
  let second := seconds % 86400
  let year ← fitHalf ((← fitHalf (date.year - 1900)) + 1900)
  let month ← fitHalf ((← fitHalf (date.month - 1)) + 1)
  let text := zeroFilled 4 year ++ [Ascii.dash] ++ zeroFilled 2 month ++ [Ascii.dash]
    ++ zeroFilled 2 date.day ++ [Ascii.upperT] ++ zeroFilled 2 (second / 3600) ++ [Ascii.colon]
    ++ zeroFilled 2 (second / 60 % 60) ++ [Ascii.colon] ++ zeroFilled 2 (second % 60)
    ++ [Ascii.point] ++ zeroFilled 9 nanos ++ [Ascii.upperZ]
  return text.take 63

/-- The correction leads to the whole seconds in the past and the nanoseconds behind them. -/
theorem yields_splitInWords (t : Instant) :
    Yields (splitInWords t.ns) (.ok (t.wholeSeconds, (t.nanos : Int))) := by
  have hlower := t.lower
  have hupper := t.upper
  have hnanos := t.nanos_lt
  have hseconds : t.ns.tdiv 1000000000 = _ := t.truncatedSeconds_eq
  have hrest := t.tmod_ns_eq
  have hns := t.ns_eq
  unfold splitInWords
  rw [hseconds, hrest]
  split
  · refine (yields_fit (by omega) (by omega)).bind_ok ?_
    refine (yields_fit (by omega) (by omega)).bind_ok ?_
    rw [if_neg (by omega), Int.add_zero]
    exact yields_pure _
  · next hbefore =>
      -- before the epoch and within a second: what is left is negative
      have hwithin : t.nanos ≠ 0 := by
        intro hzero
        exact hbefore (Or.inr ⟨t.wholeSeconds, by omega⟩)
      refine (yields_fit (by omega) (by omega)).bind_ok ?_
      refine (yields_fit (by omega) (by omega)).bind_ok ?_
      rw [if_pos (by omega)]
      refine (yields_fit (by omega) (by omega)).bind_ok ?_
      refine (yields_fit (by omega) (by omega)).bind_ok ?_
      have hback : t.wholeSeconds + 1 - 1 = t.wholeSeconds := Int.add_sub_cancel _ _
      have hforth : (t.nanos : Int) - (1000000000 : Nat) + 1000000000 = t.nanos := by omega
      rw [hback, hforth]
      exact yields_pure _

/-- What is printed of a count of seconds is the text of the seconds. -/
theorem secondsText_eq_zeroFilled {seconds : Int} (h : HasFourDigitYear seconds) :
    zeroFilled 4 (Date.ofDayNumber (seconds / 86400)).year ++ [Ascii.dash]
        ++ zeroFilled 2 (Date.ofDayNumber (seconds / 86400)).month ++ [Ascii.dash]
        ++ zeroFilled 2 (Date.ofDayNumber (seconds / 86400)).day ++ [Ascii.upperT]
        ++ zeroFilled 2 (seconds % 86400 / 3600) ++ [Ascii.colon]
        ++ zeroFilled 2 (seconds % 86400 / 60 % 60) ++ [Ascii.colon] ++ zeroFilled 2 (seconds % 86400 % 60)
      = secondsText seconds := by
  obtain ⟨hyear0, hyear1⟩ := h
  rw [← Date.year_ofDayNumber] at hyear0 hyear1
  obtain ⟨-, hmonth, -, hday⟩ := Date.bounds_of_isValid (Date.isValid_ofDayNumber (seconds / 86400))
  obtain ⟨second, hsecond⟩ := Int.eq_ofNat_of_zero_le (Int.emod_nonneg seconds (show (86400 : Int) ≠ 0 by decide))
  have hhour : zeroFilled 2 ((second : Int) / 3600) = fixed 2 (second / 3600) :=
    zeroFilled_natCast (n := second / 3600) (by decide) (by omega)
  have hminute : zeroFilled 2 ((second : Int) / 60 % 60) = fixed 2 (second / 60 % 60) :=
    zeroFilled_natCast (n := second / 60 % 60) (by decide) (by omega)
  have hrest : zeroFilled 2 ((second : Int) % 60) = fixed 2 (second % 60) :=
    zeroFilled_natCast (n := second % 60) (by decide) (by omega)
  have hyear : zeroFilled 4 (Date.ofDayNumber (seconds / 86400)).year
      = fixed 4 (Date.ofDayNumber (seconds / 86400)).year.toNat := by
    conv => lhs; rw [← Int.toNat_of_nonneg hyear0]
    exact zeroFilled_natCast (by decide) (by omega)
  rw [secondsText, hsecond, Int.toNat_natCast, hyear, hhour, hminute, hrest,
    zeroFilled_natCast (by decide) (by omega), zeroFilled_natCast (by decide) (by omega)]

/-- **Nothing overflows**: in words every instant has its canonical text, and the buffer cuts nothing off. -/
theorem yields_canonicalTextInWords (t : Instant) : Yields (canonicalTextInWords t) (.ok t.canonicalText) := by
  have hyear := t.hasFourDigitYear_wholeSeconds
  have hnanos := zeroFilled_natCast (by decide) t.nanos_lt
  obtain ⟨hmonth, htwelve, -⟩ := Date.bounds_of_isValid (Date.isValid_ofDayNumber (t.wholeSeconds / 86400))
  refine (yields_splitInWords t).bind_ok ?_
  dsimp only
  have hyear' := hyear
  unfold HasFourDigitYear at hyear'
  rw [← Date.year_ofDayNumber] at hyear'
  refine (yields_fitHalf (by omega) (by omega)).bind_ok ?_
  refine (yields_fitHalf (by omega) (by omega)).bind_ok ?_
  refine (yields_fitHalf (by omega) (by omega)).bind_ok ?_
  refine (yields_fitHalf (by omega) (by omega)).bind_ok ?_
  rw [Int.sub_add_cancel, Int.sub_add_cancel, secondsText_eq_zeroFilled hyear, hnanos]
  have htext : t.canonicalText.take 63 = t.canonicalText := by
    apply List.take_of_length_le
    rw [length_canonicalText]
    decide
  rw [← htext]
  exact yields_pure _

/-! ## The text in a log line -/

/-- From the epoch on, and on whole seconds, the text in a log line has the first six of the nine digits. -/
theorem logText_of_agrees {t : Instant} (h : 0 ≤ t.ns ∨ 1000000000 ∣ t.ns) :
    t.logText = secondsText t.wholeSeconds ++ [Ascii.point] ++ fixed 6 (t.nanos / 1000) ++ [Ascii.upperZ] := by
  have hseconds : t.truncatedSeconds = t.wholeSeconds := by
    rw [truncatedSeconds_eq, if_pos h, Int.add_zero]
  have hmicros : t.truncatedMicros = (t.nanos / 1000 : Nat) := by
    unfold truncatedMicros nanos
    rcases h with h | ⟨seconds, h⟩
    · rw [Int.tdiv_eq_ediv_of_nonneg h, Int.tmod_eq_emod_of_nonneg (by omega)]
      omega
    · -- whole seconds are whole microseconds, a million in each
      have hdiv : t.ns.tdiv 1000 = 1000000 * seconds := by
        have hns : t.ns = 1000 * (1000000 * seconds) := by omega
        rw [hns, Int.mul_tdiv_cancel_left _ (by decide)]
      rw [hdiv, Int.mul_tmod_right]
      omega
  have hsix : t.nanos / 1000 < 10 ^ 6 := by
    have hnanos := t.nanos_lt
    omega
  have hnumeral : ofInt (t.nanos / 1000 : Nat) = ofNat (t.nanos / 1000) := rfl
  rw [logText, hseconds, hmicros, hnumeral, padLeft_ofNat (by decide) hsix]

/-- The first 26 bytes of the canonical text show the first six of the nine digits. -/
theorem take_canonicalText (t : Instant) :
    t.canonicalText.take 26 = secondsText t.wholeSeconds ++ [Ascii.point] ++ fixed 6 (t.nanos / 1000) := by
  have hfront : (secondsText t.wholeSeconds ++ [Ascii.point]).length = 20 := by
    rw [List.length_append, length_secondsText, List.length_singleton]
  have hsix : (fixed 9 t.nanos ++ [Ascii.upperZ]).take 6 = fixed 6 (t.nanos / 1000) := by
    rw [List.take_append_of_le_length (by rw [length_fixed]; decide)]
    exact take_fixed 6 3 t.nanos
  calc t.canonicalText.take 26
    _ = (secondsText t.wholeSeconds ++ [Ascii.point] ++ (fixed 9 t.nanos ++ [Ascii.upperZ])).take (20 + 6) := by
        rw [canonicalText, List.append_assoc]
    _ = secondsText t.wholeSeconds ++ [Ascii.point] ++ (fixed 9 t.nanos ++ [Ascii.upperZ]).take 6 := by
        rw [← hfront, List.take_length_add_append]
    _ = secondsText t.wholeSeconds ++ [Ascii.point] ++ fixed 6 (t.nanos / 1000) := by rw [hsix]

/-- **The two texts agree from the epoch on, and on whole seconds.** For every instant the text in a log line is what
the canonical text shows up to its microseconds exactly when the instant is not before the epoch or is a whole
second: everywhere else the two name different seconds. -/
theorem logText_eq_take_canonicalText_iff (t : Instant) :
    t.logText = t.canonicalText.take 26 ++ [Ascii.upperZ] ↔ 0 ≤ t.ns ∨ 1000000000 ∣ t.ns := by
  constructor
  · intro htexts
    apply Classical.byContradiction
    intro hbefore
    rw [take_canonicalText, logText] at htexts
    simp only [List.append_assoc] at htexts
    have hlength : (secondsText t.truncatedSeconds).length = (secondsText t.wholeSeconds).length := by
      rw [length_secondsText, length_secondsText]
    have hsame : t.truncatedSeconds = t.wholeSeconds :=
      secondsText_inj t.hasFourDigitYear_truncatedSeconds t.hasFourDigitYear_wholeSeconds
        (List.append_inj_left htexts hlength)
    have hnext := t.truncatedSeconds_eq
    rw [if_neg hbefore] at hnext
    omega
  · intro h
    rw [logText_of_agrees h, take_canonicalText]

/-- A nanosecond before the epoch the log is a second ahead, and its microseconds are rounded away. -/
example :
    logText ⟨-1, by decide, by decide⟩ = Bytes.ascii "1970-01-01T00:00:00.000000Z"
      ∧ canonicalText ⟨-1, by decide, by decide⟩ = Bytes.ascii "1969-12-31T23:59:59.999999999Z" := by
  decide +kernel

end Instant

end SignedAudit
