import SignedAudit.Instant.Text
import SignedAudit.Proofs.Calendar
import SignedAudit.Proofs.Digits
import SignedAudit.Proofs.Framing

namespace SignedAudit

/-! # The canonical text of an instant

Thirty bytes for every instant that a word of 64 bits can count, none of them a bar, and no two instants with
the same thirty. The years of those instants have four digits, so that no part of the text is cut. -/

namespace Decimal

/-- A numeral of a known width can be taken off the front. -/
theorem fixed_append_inj {width m n : Nat} {x y : Bytes} (h : fixed width m ++ x = fixed width n ++ y)
    (hm : m < 10 ^ width) (hn : n < 10 ^ width) : m = n ∧ x = y := by
  have hl : (fixed width m).length = (fixed width n).length := by rw [length_fixed, length_fixed]
  obtain ⟨hnum, hrest⟩ := List.append_inj h hl
  exact ⟨fixed_inj hm hn hnum, hrest⟩

end Decimal

namespace Instant

open Decimal

/-! ## Whole seconds -/

/-- Seconds on a day of a year with at most four digits. -/
def HasFourDigitYear (seconds : Int) : Prop :=
  0 ≤ Calendar.yearOfDay (seconds / 86400) ∧ Calendar.yearOfDay (seconds / 86400) < 10000

/-- The years of all instants are close to the epoch. -/
theorem hasFourDigitYear_wholeSeconds (t : Instant) : HasFourDigitYear t.wholeSeconds := by
  have hlower := t.lower
  have hupper := t.upper
  unfold HasFourDigitYear Calendar.yearOfDay wholeSeconds
  simp only
  split
  · omega
  · split <;> omega

theorem length_secondsText (seconds : Int) : (secondsText seconds).length = 19 := by
  simp only [secondsText, List.length_append, length_fixed, List.length_singleton]

theorem mem_secondsText {seconds : Int} {b : UInt8} (h : b ∈ secondsText seconds) :
    isDigit b = true ∨ b ∈ [Ascii.dash, Ascii.upperT, Ascii.colon] := by
  simp only [secondsText, List.mem_append, List.mem_singleton] at h
  rcases h with (((((((((h | rfl) | h) | rfl) | h) | rfl) | h) | rfl) | h) | rfl) | h <;>
    first
    | exact Or.inl (isDigit_of_mem_fixed h)
    | exact Or.inr (by decide)

/-- The text of seconds names the day and the time of day, and thereby the seconds. -/
theorem secondsText_inj {s t : Int} (hs : HasFourDigitYear s) (ht : HasFourDigitYear t)
    (h : secondsText s = secondsText t) : s = t := by
  obtain ⟨hs0, hs1⟩ := hs
  obtain ⟨ht0, ht1⟩ := ht
  obtain ⟨-, hsm, -, hsd⟩ := Date.bounds_of_isValid (Date.isValid_ofDayNumber (s / 86400))
  obtain ⟨-, htm, -, htd⟩ := Date.bounds_of_isValid (Date.isValid_ofDayNumber (t / 86400))
  simp only [secondsText, List.append_assoc, Date.year_ofDayNumber] at h
  obtain ⟨hyear, h⟩ := fixed_append_inj h (by omega) (by omega)
  obtain ⟨hmonth, h⟩ := fixed_append_inj (List.append_cancel_left h) (by omega) (by omega)
  obtain ⟨hday, h⟩ := fixed_append_inj (List.append_cancel_left h) (by omega) (by omega)
  obtain ⟨hhour, h⟩ := fixed_append_inj (List.append_cancel_left h) (by omega) (by omega)
  obtain ⟨hminute, h⟩ := fixed_append_inj (List.append_cancel_left h) (by omega) (by omega)
  have hsecond := fixed_inj (by omega) (by omega) (List.append_cancel_left h)
  have hdate : Date.ofDayNumber (s / 86400) = Date.ofDayNumber (t / 86400) := by
    have hy : Calendar.yearOfDay (s / 86400) = Calendar.yearOfDay (t / 86400) := by omega
    generalize hd : Date.ofDayNumber (s / 86400) = d at hmonth hday ⊢
    generalize he : Date.ofDayNumber (t / 86400) = e at hmonth hday ⊢
    have hdy : d.year = e.year := by rw [← hd, ← he, Date.year_ofDayNumber, hy, Date.year_ofDayNumber]
    cases d
    cases e
    simp_all only
  have hdays : s / 86400 = t / 86400 := by
    rw [← Date.dayNumber_ofDayNumber (s / 86400), hdate, Date.dayNumber_ofDayNumber]
  omega

/-! ## Log lines -/

/-- The text in a log line has 28 bytes at most; it has a sign in front of the epoch. -/
theorem length_logText_le (t : Instant) : t.logText.length ≤ 28 := by
  have hmicros : t.truncatedMicros.natAbs < 10 ^ (5 + 1) := by
    rw [truncatedMicros, Int.natAbs_tmod]
    exact Nat.mod_lt _ (by decide)
  have hlength := length_ofInt_le hmicros
  simp only [logText, padLeft, List.length_append, length_secondsText, List.length_singleton,
    List.length_replicate]
  omega

/-! ## Instants -/

theorem nanos_lt (t : Instant) : t.nanos < 10 ^ 9 := by
  unfold nanos
  omega

/-- **Thirty bytes for every instant.** -/
theorem length_canonicalText (t : Instant) : t.canonicalText.length = 30 := by
  simp only [canonicalText, List.length_append, length_secondsText, length_fixed, List.length_singleton]

/-- The canonical text holds digits and five other bytes. -/
theorem mem_canonicalText {t : Instant} {b : UInt8} (h : b ∈ t.canonicalText) :
    isDigit b = true
      ∨ b ∈ [Ascii.dash, Ascii.upperT, Ascii.colon, Ascii.point, Ascii.upperZ] := by
  simp only [canonicalText, List.mem_append, List.mem_singleton] at h
  rcases h with ((h | rfl) | h) | rfl
  · exact (mem_secondsText h).imp id (List.mem_append_left [Ascii.point, Ascii.upperZ])
  · exact Or.inr (by decide)
  · exact Or.inl (isDigit_of_mem_fixed h)
  · exact Or.inr (by decide)

theorem bar_notMem_canonicalText (t : Instant) : Ascii.bar ∉ t.canonicalText := by
  intro h
  rcases mem_canonicalText h with h | h <;> revert h <;> decide

theorem upperT_mem_canonicalText (t : Instant) : Ascii.upperT ∈ t.canonicalText := by
  simp only [canonicalText, secondsText, List.mem_append, List.mem_singleton, true_or, or_true]

/-- **The canonical text keeps instants apart**, to the nanosecond. -/
theorem canonicalText_injective : Function.Injective canonicalText := by
  intro t u h
  have hl : (secondsText t.wholeSeconds).length = (secondsText u.wholeSeconds).length := by
    rw [length_secondsText, length_secondsText]
  simp only [canonicalText, List.append_assoc] at h
  obtain ⟨hseconds, h⟩ := List.append_inj h hl
  obtain ⟨hnanos, -⟩ := fixed_append_inj (List.append_cancel_left h) t.nanos_lt u.nanos_lt
  have hwhole : t.wholeSeconds = u.wholeSeconds :=
    secondsText_inj t.hasFourDigitYear_wholeSeconds u.hasFourDigitYear_wholeSeconds hseconds
  unfold wholeSeconds at hwhole
  unfold nanos at hnanos
  exact Instant.ext (by omega)

end Instant

end SignedAudit
