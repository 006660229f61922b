import SignedAudit.Instant.Parse
import SignedAudit.Proofs.DayCount
import SignedAudit.Proofs.Digits

namespace SignedAudit

/-! # The grammar of written instants

An instant is written as a date and a time of day, an optional fraction of a second and an offset from UTC, all
in rows of digits with one byte between two of them. `Instant.Written` is such a text, part by part, and
`Instant.Written.Denotes` says which count of nanoseconds it stands for, by counting days. Each stage of
`Instant.parse` takes exactly one part off the front of a text, so that the whole reads a text as an
instant exactly when it is a written instant that denotes it. -/

/-! ## Rows of digits -/

namespace Decimal

/-- A number that is continued by more digits. -/
theorem foldl_digits_lt (digits : Bytes) (hdigits : ∀ b ∈ digits, isDigit b = true) (n : Nat) :
    digits.foldl (fun n b => n * 10 + (b.toNat - Ascii.zero.toNat)) n
      < (n + 1) * 10 ^ digits.length := by
  induction digits generalizing n with
  | nil =>
      show n < (n + 1) * 1
      omega
  | cons b rest ih =>
      have hrest := ih (fun c hc => hdigits c (List.mem_cons_of_mem b hc))
        (n * 10 + (b.toNat - Ascii.zero.toNat))
      have hdigit := (isDigit_iff b).mp (hdigits b List.mem_cons_self)
      have hzero : Ascii.zero.toNat = 48 := rfl
      have hstep : n * 10 + (b.toNat - Ascii.zero.toNat) + 1 ≤ (n + 1) * 10 := by omega
      rw [List.foldl_cons, List.length_cons, Nat.pow_succ', ← Nat.mul_assoc]
      exact Nat.lt_of_lt_of_le hrest (Nat.mul_le_mul_right _ hstep)

/-- **A row of digits stands for a number below the power of ten of its length.** -/
theorem value_lt {digits : Bytes} (hdigits : ∀ b ∈ digits, isDigit b = true) :
    value digits < 10 ^ digits.length := by
  have h := foldl_digits_lt digits hdigits 0
  rwa [Nat.zero_add, Nat.one_mul] at h

/-- A row of so many digits. -/
structure Row (width : Nat) where
  digits : Bytes
  length_digits : digits.length = width
  isDigit_of_mem : ∀ b ∈ digits, isDigit b = true

namespace Row

variable {width : Nat}

/-- The number that a row stands for. -/
def value (r : Row width) : Nat := Decimal.value r.digits

theorem value_lt (r : Row width) : r.value < 10 ^ width := by
  have h := Decimal.value_lt r.isDigit_of_mem
  rwa [r.length_digits] at h

/-- The row of the last digits of a number. -/
def ofNat (width n : Nat) : Row width := ⟨fixed width n, length_fixed width n, fun _ => isDigit_of_mem_fixed⟩

theorem value_ofNat {n : Nat} (h : n < 10 ^ width) : (ofNat width n).value = n := by
  show Decimal.value (fixed width n) = n
  rw [value_fixed, Nat.mod_eq_of_lt h]

end Row

end Decimal

namespace Instant

open Decimal

/-! ## Written instants -/

/-- A date and a time of day as they are written. -/
structure WrittenClock where
  year : Row 4
  month : Row 2
  day : Row 2
  hour : Row 2
  minute : Row 2
  second : Row 2

/-- One to nine digits behind the point. -/
structure WrittenFraction where
  width : Nat
  pos : 1 ≤ width
  le_nine : width ≤ 9
  row : Row width

/-- An offset from UTC as it is written: `Z`, or a sign with hours and minutes. -/
inductive WrittenZone
  | utc
  | ahead (hours minutes : Row 2)
  | behind (hours minutes : Row 2)

/-- An instant as it is written. -/
structure Written where
  clock : WrittenClock
  fraction : Option WrittenFraction
  zone : WrittenZone

/-! ## Texts -/

/-- The text of a date and a time of day, `dddd-dd-ddTdd:dd:dd`. -/
def WrittenClock.text (c : WrittenClock) : Bytes :=
  c.year.digits ++ Ascii.dash :: c.month.digits ++ Ascii.dash :: c.day.digits
    ++ Ascii.upperT :: c.hour.digits ++ Ascii.colon :: c.minute.digits ++ Ascii.colon :: c.second.digits

/-- The text of a fraction, with the point in front. -/
def WrittenFraction.text (f : WrittenFraction) : Bytes := Ascii.point :: f.row.digits

/-- The text of an offset. -/
def WrittenZone.text : WrittenZone → Bytes
  | utc => [Ascii.upperZ]
  | ahead hours minutes => Ascii.plus :: hours.digits ++ Ascii.colon :: minutes.digits
  | behind hours minutes => Ascii.dash :: hours.digits ++ Ascii.colon :: minutes.digits

/-- The text of a fraction, if there is one. -/
def fractionText (f : Option WrittenFraction) : Bytes := (f.map WrittenFraction.text).getD []

/-- The text of a written instant. -/
def Written.text (w : Written) : Bytes := w.clock.text ++ fractionText w.fraction ++ w.zone.text

/-! ## Meanings -/

/-- The date that is written. -/
def WrittenClock.date (c : WrittenClock) : Date := ⟨c.year.value, c.month.value, c.day.value⟩

/-- What the clock shows. -/
def WrittenClock.reading (c : WrittenClock) : WallClock :=
  ⟨c.date, c.hour.value, c.minute.value, c.second.value⟩

/-- A fraction in nanoseconds: the digits that are missing are zeros. -/
def WrittenFraction.nanos (f : WrittenFraction) : Nat := f.row.value * 10 ^ (9 - f.width)

/-- A fraction in nanoseconds; none is zero. -/
def fractionNanos (f : Option WrittenFraction) : Nat := (f.map WrittenFraction.nanos).getD 0

/-- The minutes by which a clock in this zone is ahead of UTC. -/
def WrittenZone.minutesAhead : WrittenZone → Int
  | utc => 0
  | ahead hours minutes => hours.value * 60 + minutes.value
  | behind hours minutes => -(hours.value * 60 + minutes.value)

/-- At most 23 hours and 59 minutes away from UTC, the minutes below an hour. -/
def WrittenZone.InRange : WrittenZone → Prop
  | utc => True
  | ahead hours minutes => hours.value ≤ 23 ∧ minutes.value ≤ 59
  | behind hours minutes => hours.value ≤ 23 ∧ minutes.value ≤ 59

/-- A day of the calendar, a time of that day, and an offset in range. -/
structure Written.Exists (w : Written) : Prop where
  date : w.clock.date.isValid = true
  hour : w.clock.hour.value ≤ 23
  minute : w.clock.minute.value ≤ 59
  second : w.clock.second.value ≤ 59
  zone : w.zone.InRange

/-- The whole seconds at UTC, when the date has a given number: the clock's reading, less the offset. -/
def Written.secondsOn (w : Written) (day : Int) : Int :=
  ((day * 24 + w.clock.hour.value) * 60 + w.clock.minute.value) * 60 + w.clock.second.value
    - w.zone.minutesAhead * 60

/-- **Meaning**: what is written exists, the date has a number, and the whole seconds at UTC are in range; the
nanoseconds are those of the whole seconds and of the fraction. -/
def Written.Denotes (w : Written) (ns : Int) : Prop :=
  w.Exists ∧ ∃ day, w.clock.date.HasNumber day
    ∧ -9223372036 ≤ w.secondsOn day ∧ w.secondsOn day ≤ 9223372035
    ∧ ns = w.secondsOn day * 1000000000 + fractionNanos w.fraction

/-- Counted or computed, the seconds are the same. -/
theorem Written.secondsOn_dayNumber (w : Written) :
    w.secondsOn w.clock.date.dayNumber = w.clock.reading.seconds - w.zone.minutesAhead * 60 := by
  show ((w.clock.date.dayNumber * 24 + w.clock.hour.value) * 60 + w.clock.minute.value) * 60
      + w.clock.second.value - w.zone.minutesAhead * 60
    = w.clock.date.dayNumber * 86400 + w.clock.hour.value * 3600 + w.clock.minute.value * 60
      + w.clock.second.value - w.zone.minutesAhead * 60
  omega

theorem fractionNanos_lt (f : Option WrittenFraction) : fractionNanos f < 1000000000 := by
  cases f with
  | none => exact Nat.zero_lt_succ _
  | some f =>
      show f.row.value * 10 ^ (9 - f.width) < 10 ^ 9
      have hwidth : f.width + (9 - f.width) = 9 := Nat.add_sub_cancel' f.le_nine
      have hlt : f.row.value * 10 ^ (9 - f.width) < 10 ^ f.width * 10 ^ (9 - f.width) :=
        Nat.mul_lt_mul_of_pos_right f.row.value_lt (Nat.pow_pos (by decide))
      rwa [← Nat.pow_add, hwidth] at hlt

/-! ## One part off the front -/

theorem takeNumber?_append {width : Nat} (r : Row width) (rest : Bytes) :
    takeNumber? width (r.digits ++ rest) = some (r.value, rest) := by
  have htake : (r.digits ++ rest).take width = r.digits := List.take_left' r.length_digits
  have hdrop : (r.digits ++ rest).drop width = rest := List.drop_left' r.length_digits
  unfold takeNumber?
  simp only [htake, hdrop]
  exact if_pos ⟨r.length_digits, List.all_eq_true.mpr r.isDigit_of_mem⟩

/-- A number that is taken was written as a row. -/
theorem exists_of_takeNumber? {width : Nat} {text rest : Bytes} {n : Nat}
    (h : takeNumber? width text = some (n, rest)) :
    ∃ r : Row width, text = r.digits ++ rest ∧ n = r.value := by
  unfold takeNumber? at h
  simp only at h
  split at h
  · next hrow =>
      obtain ⟨rfl, rfl⟩ := Prod.mk.inj (Option.some.inj h)
      exact ⟨⟨text.take width, hrow.1, List.all_eq_true.mp hrow.2⟩,
        (List.take_append_drop width text).symm, rfl⟩
  · cases h

theorem takeByte?_cons (b c : UInt8) (rest : Bytes) :
    takeByte? b (c :: rest) = if c = b then some rest else none := rfl

theorem takeByte?_cons_self (b : UInt8) (rest : Bytes) : takeByte? b (b :: rest) = some rest := by
  rw [takeByte?_cons, if_pos rfl]

theorem eq_cons_of_takeByte? {b : UInt8} {text rest : Bytes} (h : takeByte? b text = some rest) :
    text = b :: rest := by
  cases text with
  | nil => cases h
  | cons c text =>
      rw [takeByte?_cons] at h
      split at h
      · next hc => rw [hc, Option.some.inj h]
      · cases h

theorem takeByte?_of_head?_ne {b : UInt8} {text : Bytes} (h : text.head? ≠ some b) :
    takeByte? b text = none := by
  cases text with
  | nil => rfl
  | cons c text =>
      rw [takeByte?_cons, if_neg]
      rintro rfl
      exact h rfl

/-! ## The clock -/

theorem takeWallClock?_append (c : WrittenClock) (rest : Bytes) :
    takeWallClock? (c.text ++ rest) = some (c.reading, rest) := by
  unfold takeWallClock? WrittenClock.text
  simp only [List.append_assoc, List.cons_append, takeNumber?_append, takeByte?_cons_self,
    Option.bind_eq_bind, Option.bind_some, Option.pure_def]
  rfl

/-- A clock that is read was written row by row. -/
theorem exists_of_takeWallClock? {text rest : Bytes} {clock : WallClock}
    (h : takeWallClock? text = some (clock, rest)) :
    ∃ c : WrittenClock, text = c.text ++ rest ∧ clock = c.reading := by
  unfold takeWallClock? at h
  simp only [Option.bind_eq_bind, Option.bind_eq_some_iff, Option.pure_def, Option.some.injEq,
    Prod.mk.injEq, Prod.exists] at h
  obtain ⟨_, _, hyear, _, hdash, _, _, hmonth, _, hdash', _, _, hday, _, hupperT, _, _, hhour, _, hcolon,
    _, _, hminute, _, hcolon', _, _, hsecond, rfl, rfl⟩ := h
  obtain ⟨year, rfl, rfl⟩ := exists_of_takeNumber? hyear
  obtain ⟨month, rfl, rfl⟩ := exists_of_takeNumber? hmonth
  obtain ⟨day, rfl, rfl⟩ := exists_of_takeNumber? hday
  obtain ⟨hour, rfl, rfl⟩ := exists_of_takeNumber? hhour
  obtain ⟨minute, rfl, rfl⟩ := exists_of_takeNumber? hminute
  obtain ⟨second, rfl, rfl⟩ := exists_of_takeNumber? hsecond
  refine ⟨⟨year, month, day, hour, minute, second⟩, ?_, rfl⟩
  rw [eq_cons_of_takeByte? hdash, eq_cons_of_takeByte? hdash', eq_cons_of_takeByte? hupperT,
    eq_cons_of_takeByte? hcolon, eq_cons_of_takeByte? hcolon']
  simp only [WrittenClock.text, List.append_assoc, List.cons_append]

/-! ## The fraction -/

/-- The digits at the front, when none follows them. -/
theorem takeWhile_isDigit_append {digits rest : Bytes} (hdigits : ∀ b ∈ digits, isDigit b = true)
    (hrest : ∀ b, rest.head? = some b → isDigit b = false) :
    (digits ++ rest).takeWhile isDigit = digits ∧ (digits ++ rest).dropWhile isDigit = rest := by
  rw [List.takeWhile_append_of_pos hdigits, List.dropWhile_append_of_pos hdigits]
  cases rest with
  | nil => exact ⟨List.append_nil digits, rfl⟩
  | cons b rest =>
      have hb : ¬ isDigit b = true := by
        rw [hrest b rfl]
        exact Bool.false_ne_true
      rw [List.takeWhile_cons_of_neg hb, List.dropWhile_cons_of_neg hb]
      exact ⟨List.append_nil digits, rfl⟩

/-- A fraction is taken whole where neither a digit nor a point follows it. -/
theorem takeFraction_append (f : Option WrittenFraction) {rest : Bytes}
    (hrest : ∀ b, rest.head? = some b → isDigit b = false ∧ b ≠ Ascii.point) :
    takeFraction (fractionText f ++ rest) = .ok (fractionNanos f, rest) := by
  cases f with
  | none =>
      have hpoint : takeByte? Ascii.point rest = none := by
        apply takeByte?_of_head?_ne
        intro hhead
        exact (hrest _ hhead).2 rfl
      show takeFraction rest = .ok (0, rest)
      unfold takeFraction
      rw [hpoint]
  | some f =>
      obtain ⟨htake, hdrop⟩ := takeWhile_isDigit_append f.row.isDigit_of_mem fun b hb => (hrest b hb).1
      have hlength := f.row.length_digits
      have hnonempty : f.row.digits ≠ [] := by
        intro h
        have hpos := f.pos
        rw [← hlength, h] at hpos
        exact absurd hpos (by decide)
      show takeFraction (Ascii.point :: (f.row.digits ++ rest)) = .ok (f.nanos, rest)
      unfold takeFraction
      rw [takeByte?_cons_self]
      simp only [htake, hdrop, hlength]
      rw [if_neg (Nat.not_lt.mpr f.le_nine), if_neg hnonempty]
      rfl

/-- A fraction that is read was written, or there was none. -/
theorem exists_of_takeFraction {text rest : Bytes} {nanos : Nat}
    (h : takeFraction text = .ok (nanos, rest)) :
    ∃ f, text = fractionText f ++ rest ∧ nanos = fractionNanos f := by
  unfold takeFraction at h
  split at h
  · obtain ⟨rfl, rfl⟩ := Prod.mk.inj (Except.ok.inj h)
    exact ⟨none, rfl, rfl⟩
  · next digits hpoint =>
      simp only at h
      split at h
      · cases h
      · next hshort =>
          split at h
          · cases h
          · next hnonempty =>
              obtain ⟨rfl, rfl⟩ := Prod.mk.inj (Except.ok.inj h)
              refine ⟨some ⟨(digits.takeWhile isDigit).length, ?_, Nat.not_lt.mp hshort,
                ⟨digits.takeWhile isDigit, rfl, ?_⟩⟩, ?_, rfl⟩
              · exact List.length_pos_iff.mpr hnonempty
              · intro b hb
                exact List.all_eq_true.mp List.all_takeWhile b hb
              · show text = Ascii.point :: (digits.takeWhile isDigit ++ digits.dropWhile isDigit)
                rw [List.takeWhile_append_dropWhile]
                exact eq_cons_of_takeByte? hpoint

/-! ## The offset -/

theorem takeHoursMinutes?_append {hours minutes : Row 2} (hrange : hours.value ≤ 23 ∧ minutes.value ≤ 59)
    (rest : Bytes) :
    takeHoursMinutes? (hours.digits ++ Ascii.colon :: (minutes.digits ++ rest))
      = some (hours.value * 60 + minutes.value, rest) := by
  unfold takeHoursMinutes?
  simp only [takeNumber?_append, takeByte?_cons_self, Option.bind_eq_bind, Option.bind_some]
  exact if_pos hrange

/-- Hours and minutes that are read were written, and are in range. -/
theorem exists_of_takeHoursMinutes? {text rest : Bytes} {n : Nat}
    (h : takeHoursMinutes? text = some (n, rest)) :
    ∃ hours minutes : Row 2, text = hours.digits ++ Ascii.colon :: (minutes.digits ++ rest)
      ∧ n = hours.value * 60 + minutes.value ∧ hours.value ≤ 23 ∧ minutes.value ≤ 59 := by
  unfold takeHoursMinutes? at h
  simp only [Option.bind_eq_bind, Option.bind_eq_some_iff, Prod.exists] at h
  obtain ⟨_, _, hhours, _, hcolon, _, _, hminutes, h⟩ := h
  obtain ⟨hours, rfl, rfl⟩ := exists_of_takeNumber? hhours
  obtain ⟨minutes, rfl, rfl⟩ := exists_of_takeNumber? hminutes
  split at h
  · next hrange =>
      obtain ⟨rfl, rfl⟩ := Prod.mk.inj (Option.some.inj h)
      exact ⟨hours, minutes, by rw [eq_cons_of_takeByte? hcolon], rfl, hrange⟩
  · cases h

theorem takeOffset_cons (sign : UInt8) (rest : Bytes) :
    takeOffset (sign :: rest) =
      if sign = Ascii.upperZ then .ok (0, rest)
      else if sign = Ascii.plus ∨ sign = Ascii.dash then
        match takeHoursMinutes? rest with
        | none => .error .offset
        | some (minutes, rest) => .ok (if sign = Ascii.dash then -(minutes : Int) else minutes, rest)
      else .error .noDesignator := rfl

theorem takeOffset_append {zone : WrittenZone} (hrange : zone.InRange) (rest : Bytes) :
    takeOffset (zone.text ++ rest) = .ok (zone.minutesAhead, rest) := by
  cases zone with
  | utc => rfl
  | ahead hours minutes =>
      show takeOffset (Ascii.plus :: (hours.digits ++ Ascii.colon :: minutes.digits ++ rest)) = _
      rw [takeOffset_cons, if_neg (by decide), if_pos (Or.inl rfl), List.append_assoc, List.cons_append,
        takeHoursMinutes?_append hrange]
      rfl
  | behind hours minutes =>
      show takeOffset (Ascii.dash :: (hours.digits ++ Ascii.colon :: minutes.digits ++ rest)) = _
      rw [takeOffset_cons, if_neg (by decide), if_pos (Or.inr rfl), List.append_assoc, List.cons_append,
        takeHoursMinutes?_append hrange]
      rfl

/-- An offset that is read was written, and is in range. -/
theorem exists_of_takeOffset {text rest : Bytes} {ahead : Int} (h : takeOffset text = .ok (ahead, rest)) :
    ∃ zone : WrittenZone, text = zone.text ++ rest ∧ ahead = zone.minutesAhead ∧ zone.InRange := by
  cases text with
  | nil => cases h
  | cons sign text =>
      rw [takeOffset_cons] at h
      split at h
      · next hutc =>
          obtain ⟨rfl, rfl⟩ := Prod.mk.inj (Except.ok.inj h)
          exact ⟨.utc, by rw [hutc]; rfl, rfl, trivial⟩
      · split at h
        · next hsign =>
            split at h
            · cases h
            · next minutes rest' hread =>
                obtain ⟨rfl, rfl⟩ := Prod.mk.inj (Except.ok.inj h)
                obtain ⟨hours, minutes, rfl, rfl, hrange⟩ := exists_of_takeHoursMinutes? hread
                rcases hsign with rfl | rfl
                · refine ⟨.ahead hours minutes, ?_, rfl, hrange⟩
                  simp only [WrittenZone.text, List.cons_append, List.append_assoc]
                · refine ⟨.behind hours minutes, ?_, rfl, hrange⟩
                  simp only [WrittenZone.text, List.cons_append, List.append_assoc]
        · cases h

/-- Neither a digit nor a point begins an offset. -/
theorem head?_zone_text (zone : WrittenZone) (b : UInt8) (h : zone.text.head? = some b) :
    isDigit b = false ∧ b ≠ Ascii.point := by
  cases zone <;>
    · cases h
      decide

/-! ## The whole text -/

/-- Whole seconds in range and a fraction make an instant. -/
theorem ofSeconds?_of_bounds {seconds : Int} {nanos : Nat} (hlower : -9223372036 ≤ seconds)
    (hupper : seconds ≤ 9223372035) (hnanos : nanos < 1000000000) :
    ∃ t, ofSeconds? seconds nanos = some t ∧ t.ns = seconds * 1000000000 + nanos := by
  unfold ofSeconds?
  rw [dif_pos ⟨hlower, hupper, hnanos⟩]
  exact ⟨_, rfl, rfl⟩

theorem bounds_of_ofSeconds? {seconds : Int} {nanos : Nat} {t : Instant}
    (h : ofSeconds? seconds nanos = some t) :
    -9223372036 ≤ seconds ∧ seconds ≤ 9223372035 ∧ t.ns = seconds * 1000000000 + nanos := by
  unfold ofSeconds? at h
  split at h
  · next hrange =>
      cases h
      exact ⟨hrange.1, hrange.2.1, rfl⟩
  · cases h

/-- What a part that is missing comes to. -/
def orDefect {α : Type} (d : Defect) : Option α → Except Defect α
  | none => .error d
  | some a => .ok a

/-- The reading of a written instant, as far as it exists, is that of its seconds. -/
theorem parse_text {w : Written} (hexists : w.Exists) :
    parse w.text
      = orDefect .range (ofSeconds? (w.secondsOn w.clock.date.dayNumber) (fractionNanos w.fraction)) := by
  have hfraction : takeFraction (fractionText w.fraction ++ w.zone.text)
      = .ok (fractionNanos w.fraction, w.zone.text) :=
    takeFraction_append w.fraction (head?_zone_text w.zone)
  have hoffset : takeOffset w.zone.text = .ok (w.zone.minutesAhead, []) := by
    have h := takeOffset_append hexists.zone []
    rwa [List.append_nil] at h
  have htime : ¬ (w.clock.reading.hour > 23 ∨ w.clock.reading.minute > 59
      ∨ w.clock.reading.second > 59) := by
    rintro (h | h | h)
    · exact absurd hexists.hour (Nat.not_le.mpr h)
    · exact absurd hexists.minute (Nat.not_le.mpr h)
    · exact absurd hexists.second (Nat.not_le.mpr h)
  have hdate : w.clock.reading.date.isValid = true := hexists.date
  unfold parse Written.text
  rw [List.append_assoc, takeWallClock?_append]
  simp only [if_neg htime, hfraction, hoffset, hdate, bind, Except.bind, ne_eq, not_true_eq_false,
    if_false, Bool.not_true, Bool.false_eq_true, w.secondsOn_dayNumber]
  cases ofSeconds? (w.clock.reading.seconds - w.zone.minutesAhead * 60) (fractionNanos w.fraction) <;> rfl

/-- A chain of readings comes to a result only through the result of its first one. -/
theorem exists_of_bind_ok {ε α β : Type} {x : Except ε α} {f : α → Except ε β} {b : β}
    (h : x >>= f = .ok b) : ∃ a, x = .ok a ∧ f a = .ok b := by
  cases x with
  | error e => cases h
  | ok a => exact ⟨a, rfl, h⟩

/-- A text that is read as an instant was written, and what was written exists. -/
theorem exists_of_parse {text : Bytes} {t : Instant} (h : parse text = .ok t) :
    ∃ w : Written, w.text = text ∧ w.Exists
      ∧ ofSeconds? (w.secondsOn w.clock.date.dayNumber) (fractionNanos w.fraction) = some t := by
  unfold parse at h
  split at h
  · cases h
  next clock rest hclock =>
  obtain ⟨c, rfl, rfl⟩ := exists_of_takeWallClock? hclock
  split at h
  · cases h
  next htime =>
  obtain ⟨⟨nanos, rest⟩, hfraction, h⟩ := exists_of_bind_ok h
  obtain ⟨f, rfl, rfl⟩ := exists_of_takeFraction hfraction
  obtain ⟨⟨ahead, rest⟩, hoffset, h⟩ := exists_of_bind_ok h
  obtain ⟨zone, rfl, rfl, hrange⟩ := exists_of_takeOffset hoffset
  simp only at h
  split at h
  · cases h
  next hend =>
  split at h
  · cases h
  next hdate =>
  -- all parts are taken and nothing is left; what remains is the range of the seconds
  have hnil : rest = [] := Classical.byContradiction hend
  have hvalid : c.date.isValid = true := by rwa [Bool.not_eq_true', Bool.not_eq_false] at hdate
  refine ⟨⟨c, f, zone⟩, ?_, ⟨hvalid, ?_, ?_, ?_, hrange⟩, ?_⟩
  · rw [hnil, List.append_nil]
    exact List.append_assoc _ _ _
  · exact Nat.not_lt.mp fun hhour => htime (Or.inl hhour)
  · exact Nat.not_lt.mp fun hminute => htime (Or.inr (Or.inl hminute))
  · exact Nat.not_lt.mp fun hsecond => htime (Or.inr (Or.inr hsecond))
  · rw [Written.secondsOn_dayNumber]
    split at h
    · cases h
    · next u hinstant =>
        cases h
        exact hinstant

/-- **Exactly the written instants are read, each as what it denotes.** -/
theorem parse_eq_ok_iff (text : Bytes) (ns : Int) :
    (∃ t, parse text = .ok t ∧ t.ns = ns) ↔ ∃ w : Written, w.text = text ∧ w.Denotes ns := by
  constructor
  · rintro ⟨t, hparse, rfl⟩
    obtain ⟨w, htext, hexists, hinstant⟩ := exists_of_parse hparse
    obtain ⟨hlower, hupper, hns⟩ := bounds_of_ofSeconds? hinstant
    have hnumber := (Date.hasNumber_iff w.clock.date _).mpr ⟨hexists.date, rfl⟩
    exact ⟨w, htext, hexists, w.clock.date.dayNumber, hnumber, hlower, hupper, hns⟩
  · rintro ⟨w, rfl, hexists, day, hnumber, hlower, hupper, rfl⟩
    obtain ⟨-, rfl⟩ := hnumber.sound
    obtain ⟨t, hinstant, hns⟩ := ofSeconds?_of_bounds hlower hupper (fractionNanos_lt w.fraction)
    refine ⟨t, ?_, hns⟩
    rw [parse_text hexists, hinstant, orDefect]

end Instant

end SignedAudit
