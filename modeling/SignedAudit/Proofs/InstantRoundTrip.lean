import SignedAudit.Proofs.InstantReading
import SignedAudit.Proofs.InstantText

namespace SignedAudit

/-! # Canonical texts are read back

The canonical text of an instant is a written instant: its date is the day of the seconds' day number, which
exists, and counting that day gives the number back. So reading undoes the canonical text wherever the
whole seconds are in the reader's range, and refuses it elsewhere: the first and the last fraction of a
second that a word of 64 bits can count have a text but no reading. What is read at all is read in a
normal form, one canonical text for each instant. -/

namespace Instant

open Decimal

/-- The interval of the instants that can be read. -/
def IsReadable (t : Instant) : Prop := -9223372036000000000 ≤ t.ns ∧ t.ns ≤ 9223372035999999999

theorem isReadable_iff (t : Instant) :
    t.IsReadable ↔ -9223372036 ≤ t.wholeSeconds ∧ t.wholeSeconds ≤ 9223372035 := by
  unfold IsReadable wholeSeconds
  omega

/-! ## The canonical text as a written instant -/

/-- The clock of a count of seconds, as it is written. -/
def WrittenClock.ofSeconds (seconds : Int) : WrittenClock where
  year := .ofNat 4 (Date.ofDayNumber (seconds / 86400)).year.toNat
  month := .ofNat 2 (Date.ofDayNumber (seconds / 86400)).month
  day := .ofNat 2 (Date.ofDayNumber (seconds / 86400)).day
  hour := .ofNat 2 ((seconds % 86400).toNat / 3600)
  minute := .ofNat 2 ((seconds % 86400).toNat / 60 % 60)
  second := .ofNat 2 ((seconds % 86400).toNat % 60)

/-- The instant as its canonical text writes it. -/
def Written.ofInstant (t : Instant) : Written where
  clock := .ofSeconds t.wholeSeconds
  fraction := some ⟨9, Nat.succ_le_succ (Nat.zero_le 8), Nat.le_refl 9, .ofNat 9 t.nanos⟩
  zone := .utc

theorem WrittenClock.text_ofSeconds (seconds : Int) :
    (WrittenClock.ofSeconds seconds).text = secondsText seconds := by
  simp only [text, ofSeconds, Row.ofNat, secondsText, List.append_assoc, List.cons_append,
    List.nil_append]

theorem Written.text_ofInstant (t : Instant) : (ofInstant t).text = t.canonicalText := by
  show (WrittenClock.ofSeconds t.wholeSeconds).text ++ (Ascii.point :: fixed 9 t.nanos) ++ [Ascii.upperZ]
    = _
  rw [WrittenClock.text_ofSeconds, canonicalText]
  simp only [List.append_assoc, List.cons_append, List.nil_append]

/-- Four digits are enough for the year, and so the date is written as it is. -/
theorem WrittenClock.date_ofSeconds {seconds : Int} (h : HasFourDigitYear seconds) :
    (ofSeconds seconds).date = Date.ofDayNumber (seconds / 86400) := by
  obtain ⟨hyear0, hyear1⟩ := h
  have hvalid := Date.isValid_ofDayNumber (seconds / 86400)
  obtain ⟨-, hmonth, -, hday⟩ := Date.bounds_of_isValid hvalid
  rw [← Date.year_ofDayNumber] at hyear0 hyear1
  have hyear : ((ofSeconds seconds).year.value : Int) = (Date.ofDayNumber (seconds / 86400)).year := by
    show ((Row.ofNat 4 _).value : Int) = _
    rw [Row.value_ofNat (by omega), Int.toNat_of_nonneg hyear0]
  have hmonth' : (ofSeconds seconds).month.value = (Date.ofDayNumber (seconds / 86400)).month :=
    Row.value_ofNat (by omega)
  have hday' : (ofSeconds seconds).day.value = (Date.ofDayNumber (seconds / 86400)).day :=
    Row.value_ofNat (by omega)
  unfold date
  rw [hyear, hmonth', hday']

/-- The time of day, hours, minutes and seconds, in numbers of two digits. -/
theorem WrittenClock.time_ofSeconds (seconds : Int) :
    (ofSeconds seconds).hour.value = (seconds % 86400).toNat / 3600
      ∧ (ofSeconds seconds).minute.value = (seconds % 86400).toNat / 60 % 60
      ∧ (ofSeconds seconds).second.value = (seconds % 86400).toNat % 60 := by
  refine ⟨?_, ?_, ?_⟩ <;>
    · apply Row.value_ofNat
      omega

/-- What the canonical text writes exists. -/
theorem Written.exists_ofInstant (t : Instant) : (ofInstant t).Exists := by
  obtain ⟨hhour, hminute, hsecond⟩ := WrittenClock.time_ofSeconds t.wholeSeconds
  have hdate := WrittenClock.date_ofSeconds t.hasFourDigitYear_wholeSeconds
  refine ⟨?_, ?_, ?_, ?_, trivial⟩
  · show (WrittenClock.ofSeconds t.wholeSeconds).date.isValid = true
    rw [hdate]
    exact Date.isValid_ofDayNumber _
  · show (WrittenClock.ofSeconds t.wholeSeconds).hour.value ≤ 23
    omega
  · show (WrittenClock.ofSeconds t.wholeSeconds).minute.value ≤ 59
    omega
  · show (WrittenClock.ofSeconds t.wholeSeconds).second.value ≤ 59
    omega

/-- Day number and time of day make up the whole seconds again. -/
theorem Written.secondsOn_ofInstant (t : Instant) :
    (ofInstant t).secondsOn (ofInstant t).clock.date.dayNumber = t.wholeSeconds := by
  obtain ⟨hhour, hminute, hsecond⟩ := WrittenClock.time_ofSeconds t.wholeSeconds
  have hday : (WrittenClock.ofSeconds t.wholeSeconds).date.dayNumber = t.wholeSeconds / 86400 := by
    rw [WrittenClock.date_ofSeconds t.hasFourDigitYear_wholeSeconds, Date.dayNumber_ofDayNumber]
  show (((WrittenClock.ofSeconds t.wholeSeconds).date.dayNumber * 24
      + (WrittenClock.ofSeconds t.wholeSeconds).hour.value) * 60
      + (WrittenClock.ofSeconds t.wholeSeconds).minute.value) * 60
      + (WrittenClock.ofSeconds t.wholeSeconds).second.value - 0 * 60 = t.wholeSeconds
  rw [hday, hhour, hminute, hsecond]
  omega

theorem fractionNanos_ofInstant (t : Instant) :
    fractionNanos (Written.ofInstant t).fraction = t.nanos := by
  show (Row.ofNat 9 t.nanos).value * 10 ^ (9 - 9) = t.nanos
  rw [Row.value_ofNat t.nanos_lt, Nat.sub_self, Nat.pow_zero, Nat.mul_one]

/-! ## Reading it back -/

/-- An instant is made up of its whole seconds and its nanoseconds. -/
theorem ns_eq (t : Instant) : t.ns = t.wholeSeconds * 1000000000 + t.nanos := by
  unfold wholeSeconds nanos
  omega

/-- The canonical text is read as the instant's own seconds and nanoseconds, as far as they are in range. -/
theorem parse_canonicalText (t : Instant) :
    parse t.canonicalText = orDefect .range (ofSeconds? t.wholeSeconds t.nanos) := by
  rw [← Written.text_ofInstant, parse_text (Written.exists_ofInstant t), Written.secondsOn_ofInstant,
    fractionNanos_ofInstant]

/-- In the interval the instant is read back. -/
theorem parse_canonicalText_of_isReadable {t : Instant} (h : t.IsReadable) :
    parse t.canonicalText = .ok t := by
  obtain ⟨hlower, hupper⟩ := t.isReadable_iff.mp h
  obtain ⟨u, hu, hns⟩ := ofSeconds?_of_bounds hlower hupper t.nanos_lt
  have hut : u = t := by
    apply Instant.ext
    rw [hns, ← ns_eq]
  rw [parse_canonicalText, hu, hut, orDefect]

/-- Outside of the interval the text is refused, for its range. -/
theorem parse_canonicalText_of_not_isReadable {t : Instant} (h : ¬ t.IsReadable) :
    parse t.canonicalText = .error .range := by
  rw [parse_canonicalText]
  cases hu : ofSeconds? t.wholeSeconds t.nanos with
  | none => rfl
  | some u =>
      obtain ⟨hlower, hupper, -⟩ := bounds_of_ofSeconds? hu
      exact absurd (t.isReadable_iff.mpr ⟨hlower, hupper⟩) h

/-- What is read lies in the interval. -/
theorem isReadable_of_parse {text : Bytes} {t : Instant} (h : parse text = .ok t) : t.IsReadable := by
  obtain ⟨w, -, -, hinstant⟩ := exists_of_parse h
  obtain ⟨hlower, hupper, hns⟩ := bounds_of_ofSeconds? hinstant
  have hnanos := fractionNanos_lt w.fraction
  unfold IsReadable
  omega

/-- **Reading and writing are inverse on the interval of readable instants**: these are all that reading comes
to, their canonical texts are read back, and those of all other instants are refused as malformed. So
reading, writing and reading again comes to the same, and two texts that are read have one canonical form
exactly when they stand for one instant. -/
theorem reading_undoes_canonicalText (s : System) :
    (∀ t : Instant, (∃ text, parse text = .ok t)
        ↔ -9223372036000000000 ≤ t.ns ∧ t.ns ≤ 9223372035999999999)
      ∧ (∀ t : Instant, -9223372036000000000 ≤ t.ns ∧ t.ns ≤ 9223372035999999999 →
        (Command.readInstant t.canonicalText).perform s = (.ok t, s))
      ∧ (∀ t : Instant, ¬ (-9223372036000000000 ≤ t.ns ∧ t.ns ≤ 9223372035999999999) →
        ∃ fault, (Command.readInstant t.canonicalText).perform s = (.error (.fault fault), s)
          ∧ fault = (Cause.malformedTimestamp t.canonicalText .range).fault
          ∧ fault.domain = .validation ∧ fault.code = 0x401)
      ∧ (∀ text t, parse text = .ok t → parse t.canonicalText = .ok t)
      ∧ ∀ text text' t t', parse text = .ok t → parse text' = .ok t' →
        (t.canonicalText = t'.canonicalText ↔ t.ns = t'.ns) := by
  refine ⟨?_, ?_, ?_, ?_, ?_⟩
  · intro t
    constructor
    · rintro ⟨text, hparse⟩
      exact isReadable_of_parse hparse
    · intro hreadable
      exact ⟨t.canonicalText, parse_canonicalText_of_isReadable hreadable⟩
  · intro t hreadable
    rw [perform_readInstant, parse_canonicalText_of_isReadable hreadable]
  · intro t hforeign
    refine ⟨_, ?_, rfl, rfl, rfl⟩
    rw [perform_readInstant, parse_canonicalText_of_not_isReadable hforeign]
    rfl
  · intro text t hparse
    exact parse_canonicalText_of_isReadable (isReadable_of_parse hparse)
  · intro text text' t t' _ _
    constructor
    · intro hsame
      rw [canonicalText_injective hsame]
    · intro hns
      rw [Instant.ext hns]

/-- The last instant of all, which has a text but no reading. -/
def last : Instant := ⟨2 ^ 63 - 1, by decide, by decide⟩

/-- The epoch is read back from its text, and the last instant of all is not. -/
theorem reading_undoes_canonicalText_epoch :
    (Command.readInstant (Bytes.ascii "1970-01-01T00:00:00.000000000Z")).perform {} = (.ok epoch, {})
      ∧ ∃ fault, (Command.readInstant last.canonicalText).perform {} = (.error (.fault fault), {})
        ∧ fault.domain = .validation := by
  obtain ⟨-, hback, hrefused, -⟩ := reading_undoes_canonicalText {}
  constructor
  · have htext : epoch.canonicalText = Bytes.ascii "1970-01-01T00:00:00.000000000Z" := by decide
    rw [← htext]
    exact hback epoch (by decide)
  · obtain ⟨fault, hperform, -, hdomain, -⟩ := hrefused last (by decide)
    exact ⟨fault, hperform, hdomain⟩

end Instant

end SignedAudit
