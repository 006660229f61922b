import SignedAudit.Proofs.InstantGrammar

namespace SignedAudit.Instant

open Decimal Calendar

/-! # Reading instants in words of 64 bits

`parseInWords` reads an instant as `parse` does, stage by stage, but each number on the way is computed out
of numbers that were computed before and has to fit a signed word of 64 bits; if one does not, there is no
outcome at all. Digits are counted as they are met, also those of a part that turns out to be
malformed. Each stage has an outcome, and it is that of the corresponding stage of `parse`: rows have nine
digits at most, years four, and whole seconds are turned into nanoseconds only when they are in range. -/

/-! ## Numbers that fit -/

/-- A reading that may end in a defect, and that has no outcome if a number on the way does not fit. -/
abbrev InWords := ExceptT Defect Option

namespace InWords

variable {α β : Type}

/-- A number on the way. -/
def fit (n : Int) : InWords Int := if -(2 ^ 63) ≤ n ∧ n < 2 ^ 63 then pure n else ExceptT.mk none

/-- A number on the way that is not negative. -/
def fitNat (n : Nat) : InWords Nat := do
  let _ ← fit n
  return n

/-- **Reading has an outcome**, so that all numbers on the way fit. -/
def Yields (x : InWords α) (outcome : Except Defect α) : Prop := x.run = some outcome

theorem yields_pure (a : α) : Yields (pure a) (.ok a) := rfl

theorem yields_throw (d : Defect) : Yields (throw d : InWords α) (.error d) := rfl

/-- What follows a reading follows its outcome. -/
theorem Yields.bind {x : InWords α} {f : α → InWords β} {outcome : Except Defect α}
    {g : α → Except Defect β} (hx : Yields x outcome) (hf : ∀ a, outcome = .ok a → Yields (f a) (g a)) :
    Yields (x >>= f) (outcome >>= g) := by
  have hrun : (x >>= f).run = x.run.bind fun
      | .ok a => (f a).run
      | .error d => some (.error d) := by
    show Option.bind x.run _ = _
    congr 1
    funext result
    cases result <;> rfl
  unfold Yields at hx ⊢
  rw [hrun, hx]
  cases outcome with
  | error d => rfl
  | ok a => exact hf a rfl

/-- After a success the rest decides. -/
theorem Yields.bind_ok {x : InWords α} {f : α → InWords β} {a : α} {outcome : Except Defect β}
    (hx : Yields x (.ok a)) (hf : Yields (f a) outcome) : Yields (x >>= f) outcome := by
  apply hx.bind (g := fun _ => outcome)
  intro b hb
  rw [← Except.ok.inj hb]
  exact hf

theorem yields_fit {n : Int} (hlower : -(2 ^ 63) ≤ n) (hupper : n < 2 ^ 63) : Yields (fit n) (.ok n) := by
  unfold fit
  rw [if_pos ⟨hlower, hupper⟩]
  exact yields_pure n

theorem yields_fitNat {n : Nat} (h : n < 2 ^ 63) : Yields (fitNat n) (.ok n) := by
  have hfit : Yields (fit n) (.ok (n : Int)) := yields_fit (by omega) (by omega)
  exact hfit.bind_ok (yields_pure n)

/-- Parts that are taken one after the other. -/
theorem Yields.bind_orDefect {d : Defect} {x : InWords α} {f : α → InWords β} {part : Option α}
    {g : α → Option β} (hx : Yields x (orDefect d part)) (hf : ∀ a, Yields (f a) (orDefect d (g a))) :
    Yields (x >>= f) (orDefect d (part.bind g)) := by
  cases part with
  | none => exact hx.bind (g := fun a => orDefect d (g a)) fun a ha => nomatch ha
  | some a => exact hx.bind_ok (hf a)

end InWords

open InWords

/-! ## Rows of digits -/

/-- Counts digits behind a number. -/
def readDigits (n : Nat) : Bytes → InWords Nat
  | [] => return n
  | b :: rest => do
    let tens ← fitNat (n * 10)
    readDigits (← fitNat (tens + (b.toNat - Ascii.zero.toNat))) rest

/-- Puts zeros behind a number. -/
def readZeros : (zeros n : Nat) → InWords Nat
  | 0, n => return n
  | zeros + 1, n => do readZeros zeros (← fitNat (n * 10))

/-- What has been counted has to leave room for the digits that are still to come. -/
theorem yields_readDigits {digits : Bytes} (hdigits : ∀ b ∈ digits, isDigit b = true) {n : Nat}
    (hroom : (n + 1) * 10 ^ digits.length ≤ 10 ^ 9) :
    Yields (readDigits n digits)
      (.ok (digits.foldl (fun n b => n * 10 + (b.toNat - Ascii.zero.toNat)) n)) := by
  induction digits generalizing n with
  | nil => exact yields_pure n
  | cons b rest ih =>
      have hdigit := (isDigit_iff b).mp (hdigits b List.mem_cons_self)
      have hzero : Ascii.zero.toNat = 48 := rfl
      have hstep : n * 10 + (b.toNat - Ascii.zero.toNat) + 1 ≤ (n + 1) * 10 := by omega
      have hrest : (n * 10 + (b.toNat - Ascii.zero.toNat) + 1) * 10 ^ rest.length ≤ 10 ^ 9 := by
        rw [List.length_cons, Nat.pow_succ', ← Nat.mul_assoc] at hroom
        exact Nat.le_trans (Nat.mul_le_mul_right _ hstep) hroom
      have hfits : n * 10 + (b.toNat - Ascii.zero.toNat) < 10 ^ 9 :=
        Nat.lt_of_lt_of_le (Nat.lt_succ_self _)
          (Nat.le_trans (Nat.le_mul_of_pos_right _ (Nat.pow_pos (by decide))) hrest)
      refine (yields_fitNat (by omega)).bind_ok ?_
      refine (yields_fitNat (by omega)).bind_ok ?_
      exact ih (fun c hc => hdigits c (List.mem_cons_of_mem b hc)) hrest

/-- A row that is short enough is counted to its value. -/
theorem yields_readRow {digits : Bytes} (hdigits : ∀ b ∈ digits, isDigit b = true)
    (hlength : digits.length ≤ 9) : Yields (readDigits 0 digits) (.ok (value digits)) := by
  apply yields_readDigits hdigits
  rw [Nat.zero_add, Nat.one_mul]
  exact Nat.pow_le_pow_right (by decide) hlength

theorem yields_readZeros (zeros : Nat) {n : Nat} (h : n * 10 ^ zeros < 10 ^ 9) :
    Yields (readZeros zeros n) (.ok (n * 10 ^ zeros)) := by
  induction zeros generalizing n with
  | zero =>
      rw [Nat.pow_zero, Nat.mul_one]
      exact yields_pure n
  | succ zeros ih =>
      rw [Nat.pow_succ', ← Nat.mul_assoc] at h ⊢
      have hfits : n * 10 < 10 ^ 9 :=
        Nat.lt_of_le_of_lt (Nat.le_mul_of_pos_right _ (Nat.pow_pos (by decide))) h
      exact (yields_fitNat (by omega)).bind_ok (ih h)

/-! ## One part off the front -/

/-- Takes exactly `count` digits off the front, and counts those that there are. -/
def readNumber (d : Defect) (count : Nat) (text : Bytes) : InWords (Nat × Bytes) := do
  let digits := text.take count
  let n ← readDigits 0 (digits.takeWhile isDigit)
  if digits.length = count ∧ digits.all isDigit then return (n, text.drop count) else throw d

/-- Takes one given byte off the front. -/
def readByte (d : Defect) (b : UInt8) (text : Bytes) : InWords Bytes :=
  match takeByte? b text with
  | none => throw d
  | some rest => return rest

theorem yields_readNumber (d : Defect) {count : Nat} (hcount : count ≤ 9) (text : Bytes) :
    Yields (readNumber d count text) (orDefect d (takeNumber? count text)) := by
  have hshort : ((text.take count).takeWhile isDigit).length ≤ 9 :=
    Nat.le_trans (List.takeWhile_prefix isDigit).length_le
      (Nat.le_trans (List.length_take_le count text) hcount)
  have hrow := yields_readRow (List.all_eq_true.mp List.all_takeWhile) hshort
  apply hrow.bind_ok
  unfold takeNumber?
  dsimp only
  split
  · next hdigits =>
      -- if all are digits, all have been counted
      have hall : (text.take count).takeWhile isDigit = text.take count := by
        have hend : ∀ b, ([] : Bytes).head? = some b → isDigit b = false := fun b hb => nomatch hb
        have h := (takeWhile_isDigit_append (List.all_eq_true.mp hdigits.2) hend).1
        rwa [List.append_nil] at h
      rw [hall]
      exact yields_pure _
  · exact yields_throw d

theorem yields_readByte (d : Defect) (b : UInt8) (text : Bytes) :
    Yields (readByte d b text) (orDefect d (takeByte? b text)) := by
  unfold readByte
  cases takeByte? b text with
  | none => exact yields_throw d
  | some rest => exact yields_pure rest

/-! ## The stages -/

/-- Takes `YYYY-MM-DDThh:mm:ss` off the front. -/
def readWallClock (text : Bytes) : InWords (WallClock × Bytes) := do
  let (year, text) ← readNumber .shape 4 text
  let text ← readByte .shape Ascii.dash text
  let (month, text) ← readNumber .shape 2 text
  let text ← readByte .shape Ascii.dash text
  let (day, text) ← readNumber .shape 2 text
  let text ← readByte .shape Ascii.upperT text
  let (hour, text) ← readNumber .shape 2 text
  let text ← readByte .shape Ascii.colon text
  let (minute, text) ← readNumber .shape 2 text
  let text ← readByte .shape Ascii.colon text
  let (second, text) ← readNumber .shape 2 text
  return (⟨⟨year, month, day⟩, hour, minute, second⟩, text)

/-- Takes an optional fraction of a second off the front. Of too many digits the first nine are counted. -/
def readFraction (text : Bytes) : InWords (Nat × Bytes) :=
  match takeByte? Ascii.point text with
  | none => return (0, text)
  | some text => do
    let digits := text.takeWhile isDigit
    let n ← readDigits 0 (digits.take 9)
    if digits.length > 9 then throw .longFraction
    else if digits = [] then throw .emptyFraction
    else return (← readZeros (9 - digits.length) n, text.dropWhile isDigit)

/-- Takes `hh:mm` off the front, at most 23:59. -/
def readHoursMinutes (text : Bytes) : InWords (Nat × Bytes) := do
  let (hours, text) ← readNumber .offset 2 text
  let text ← readByte .offset Ascii.colon text
  let (minutes, text) ← readNumber .offset 2 text
  if hours ≤ 23 ∧ minutes ≤ 59 then
    let whole ← fitNat (hours * 60)
    return (← fitNat (whole + minutes), text)
  else throw .offset

/-- Takes `Z` or a signed offset off the front. -/
def readOffset : Bytes → InWords (Int × Bytes)
  | [] => throw .noDesignator
  | sign :: rest =>
    if sign = Ascii.upperZ then return (0, rest)
    else if sign = Ascii.plus ∨ sign = Ascii.dash then do
      let (minutes, rest) ← readHoursMinutes rest
      return (← fit (if sign = Ascii.dash then -(minutes : Int) else minutes), rest)
    else throw .noDesignator

/-- Counts the days up to a date. -/
def countDays (d : Date) : InWords Int := do
  let years ← fit (daysBeforeYear d.year)
  let months ← fitNat (daysIn ((monthLengths d.year).take (d.month - 1)))
  let whole ← fit (years + months)
  fit (whole + (d.day - 1 : Int))

/-- Counts the seconds at UTC: before a smaller unit is added, all is brought to that unit. -/
def countSeconds (clock : WallClock) (ahead : Int) : InWords Int := do
  let days ← countDays clock.date
  let hours ← fit ((← fit (days * 24)) + clock.hour)
  let minutes ← fit ((← fit (hours * 60)) + clock.minute)
  let seconds ← fit ((← fit (minutes * 60)) + clock.second)
  let offset ← fit (ahead * 60)
  fit (seconds - offset)

/-- The instant of a whole second and a fraction, for whole seconds in range. -/
def readSeconds (seconds : Int) (nanos : Nat) : InWords Instant := do
  if earliestSecond ≤ seconds ∧ seconds ≤ latestSecond then
    let whole ← fit (seconds * 1000000000)
    match ofNs? (← fit (whole + nanos)) with
    | none => throw .range
    | some t => return t
  else throw .range

/-- **Reads a whole text as an instant**, in words of 64 bits. -/
def parseInWords (text : Bytes) : InWords Instant := do
  let (clock, text) ← readWallClock text
  if clock.hour > 23 ∨ clock.minute > 59 ∨ clock.second > 59 then throw .timeOfDay
  else
    let (nanos, text) ← readFraction text
    let (ahead, text) ← readOffset text
    if text ≠ [] then throw .trailing
    else if !clock.date.isValid then throw .date
    else readSeconds (← countSeconds clock ahead) nanos

/-! ## Each stage has the outcome of the reader's -/

theorem yields_readWallClock (text : Bytes) :
    Yields (readWallClock text) (orDefect .shape (takeWallClock? text)) := by
  have hfour : 4 ≤ 9 := by decide
  have htwo : 2 ≤ 9 := by decide
  refine (yields_readNumber .shape hfour text).bind_orDefect ?_
  rintro ⟨year, text⟩
  refine (yields_readByte .shape Ascii.dash text).bind_orDefect ?_
  intro text
  refine (yields_readNumber .shape htwo text).bind_orDefect ?_
  rintro ⟨month, text⟩
  refine (yields_readByte .shape Ascii.dash text).bind_orDefect ?_
  intro text
  refine (yields_readNumber .shape htwo text).bind_orDefect ?_
  rintro ⟨day, text⟩
  refine (yields_readByte .shape Ascii.upperT text).bind_orDefect ?_
  intro text
  refine (yields_readNumber .shape htwo text).bind_orDefect ?_
  rintro ⟨hour, text⟩
  refine (yields_readByte .shape Ascii.colon text).bind_orDefect ?_
  intro text
  refine (yields_readNumber .shape htwo text).bind_orDefect ?_
  rintro ⟨minute, text⟩
  refine (yields_readByte .shape Ascii.colon text).bind_orDefect ?_
  intro text
  refine (yields_readNumber .shape htwo text).bind_orDefect ?_
  rintro ⟨second, text⟩
  exact yields_pure _

theorem yields_readFraction (text : Bytes) : Yields (readFraction text) (takeFraction text) := by
  unfold readFraction takeFraction
  cases takeByte? Ascii.point text with
  | none => exact yields_pure _
  | some text =>
      dsimp only
      have hdigits : ∀ b ∈ text.takeWhile isDigit, isDigit b = true :=
        List.all_eq_true.mp List.all_takeWhile
      have hrow : Yields (readDigits 0 ((text.takeWhile isDigit).take 9)) _ :=
        yields_readRow (fun b hb => hdigits b (List.mem_of_mem_take hb)) (List.length_take_le 9 _)
      apply hrow.bind_ok
      split
      · exact yields_throw .longFraction
      next hshort =>
      split
      · exact yields_throw .emptyFraction
      · -- all digits have been counted, and zeros fill them up to nine
        have hlength : (text.takeWhile isDigit).length ≤ 9 := Nat.not_lt.mp hshort
        rw [List.take_of_length_le hlength]
        have hwidth : (text.takeWhile isDigit).length + (9 - (text.takeWhile isDigit).length) = 9 :=
          Nat.add_sub_cancel' hlength
        have hlt := Nat.mul_lt_mul_of_pos_right (value_lt hdigits)
          (Nat.pow_pos (n := 9 - (text.takeWhile isDigit).length) (show 0 < 10 by decide))
        rw [← Nat.pow_add, hwidth] at hlt
        exact (yields_readZeros _ hlt).bind_ok (yields_pure _)

theorem yields_readHoursMinutes (text : Bytes) :
    Yields (readHoursMinutes text) (orDefect .offset (takeHoursMinutes? text)) := by
  have htwo : 2 ≤ 9 := by decide
  refine (yields_readNumber .offset htwo text).bind_orDefect ?_
  rintro ⟨hours, text⟩
  refine (yields_readByte .offset Ascii.colon text).bind_orDefect ?_
  intro text
  refine (yields_readNumber .offset htwo text).bind_orDefect ?_
  rintro ⟨minutes, text⟩
  dsimp only
  split
  · next hrange =>
      have hwhole : Yields (fitNat (hours * 60)) _ := yields_fitNat (by omega)
      have hsum : Yields (fitNat (hours * 60 + minutes)) _ := yields_fitNat (by omega)
      exact hwhole.bind_ok (hsum.bind_ok (yields_pure _))
  · exact yields_throw .offset

theorem yields_readOffset (text : Bytes) : Yields (readOffset text) (takeOffset text) := by
  cases text with
  | nil => exact yields_throw .noDesignator
  | cons sign text =>
      rw [takeOffset_cons, readOffset]
      by_cases hutc : sign = Ascii.upperZ
      · rw [if_pos hutc, if_pos hutc]
        exact yields_pure _
      rw [if_neg hutc, if_neg hutc]
      by_cases hsign : sign = Ascii.plus ∨ sign = Ascii.dash
      · rw [if_pos hsign, if_pos hsign]
        have hminutes := yields_readHoursMinutes text
        cases hread : takeHoursMinutes? text with
        | none =>
            rw [hread] at hminutes
            exact hminutes.bind (g := fun _ => .error .offset) fun a ha => nomatch ha
        | some part =>
            obtain ⟨minutes, rest⟩ := part
            rw [hread] at hminutes
            obtain ⟨hours, below, -, rfl, hhours, hbelow⟩ := exists_of_takeHoursMinutes? hread
            refine hminutes.bind_ok ?_
            dsimp only
            have hsigned := yields_fit (n := if sign = Ascii.dash then
              -((hours.value * 60 + below.value : Nat) : Int) else (hours.value * 60 + below.value : Nat))
              (by split <;> omega) (by split <;> omega)
            exact hsigned.bind_ok (yields_pure _)
      · rw [if_neg hsign, if_neg hsign]
        exact yields_throw .noDesignator

/-- Dates with four digits for the year are within some thousand years of the epoch, whether or not they
exist. -/
theorem WrittenClock.date_bounds (c : WrittenClock) :
    -800000 < daysBeforeYear c.date.year ∧ daysBeforeYear c.date.year < 3000000
      ∧ daysIn ((monthLengths c.date.year).take (c.date.month - 1)) ≤ 366 ∧ c.date.day < 100 := by
  have hyear := c.year.value_lt
  have htake := daysIn_take_add_getD_le (monthLengths c.date.year) (c.date.month - 1)
  have hsum := daysIn_monthLengths c.date.year
  have hdateYear : c.date.year = (c.year.value : Int) := rfl
  rw [hdateYear] at htake hsum ⊢
  unfold daysBeforeYear at hsum ⊢
  refine ⟨by omega, by omega, by omega, c.day.value_lt⟩

theorem yields_countDays (c : WrittenClock) : Yields (countDays c.date) (.ok c.date.dayNumber) := by
  obtain ⟨hlower, hupper, hmonths, hday⟩ := c.date_bounds
  have hyears : Yields (fit (daysBeforeYear c.date.year)) _ := yields_fit (by omega) (by omega)
  refine hyears.bind_ok ((yields_fitNat (by omega)).bind_ok ?_)
  exact (yields_fit (by omega) (by omega)).bind_ok (yields_fit (by omega) (by omega))

theorem WrittenZone.minutesAhead_bounds {zone : WrittenZone} (h : zone.InRange) :
    -1440 < zone.minutesAhead ∧ zone.minutesAhead < 1440 := by
  cases zone with
  | utc => decide
  | ahead hours minutes | behind hours minutes =>
      obtain ⟨hhours, hminutes⟩ := h
      simp only [minutesAhead]
      omega

/-- Days and a time of day are counted in seconds, and an offset that exists is taken off. -/
theorem yields_countSeconds (c : WrittenClock) {zone : WrittenZone} (hrange : zone.InRange) :
    Yields (countSeconds c.reading zone.minutesAhead)
      (.ok (c.reading.seconds - zone.minutesAhead * 60)) := by
  obtain ⟨hlower, hupper, hmonths, hday⟩ := c.date_bounds
  obtain ⟨hbehind, hahead⟩ := WrittenZone.minutesAhead_bounds hrange
  have hhour : c.reading.hour < 100 := c.hour.value_lt
  have hminute : c.reading.minute < 100 := c.minute.value_lt
  have hsecond : c.reading.second < 100 := c.second.value_lt
  have hdays : -900000 < c.date.dayNumber ∧ c.date.dayNumber < 4000000 := by
    unfold Date.dayNumber
    omega
  rw [← Written.secondsOn_dayNumber ⟨c, none, zone⟩]
  refine (yields_countDays c).bind_ok ?_
  refine (yields_fit (by omega) (by omega)).bind_ok ?_
  refine (yields_fit (by omega) (by omega)).bind_ok ?_
  refine (yields_fit (by omega) (by omega)).bind_ok ?_
  refine (yields_fit (by omega) (by omega)).bind_ok ?_
  refine (yields_fit (by omega) (by omega)).bind_ok ?_
  refine (yields_fit (by omega) (by omega)).bind_ok ?_
  refine (yields_fit (by omega) (by omega)).bind_ok ?_
  exact yields_fit (by omega) (by omega)

/-- Only whole seconds in range are turned into nanoseconds. -/
theorem yields_readSeconds (seconds : Int) {nanos : Nat} (hnanos : nanos < 1000000000) :
    Yields (readSeconds seconds nanos) (orDefect .range (ofSeconds? seconds nanos)) := by
  unfold readSeconds
  split
  · next hrange =>
      obtain ⟨hlower, hupper⟩ := hrange
      unfold earliestSecond at hlower
      unfold latestSecond at hupper
      obtain ⟨t, ht, hns⟩ := ofSeconds?_of_bounds hlower hupper hnanos
      have hcount : ofNs? (seconds * 1000000000 + nanos) = some t := by
        rw [← hns]
        exact dif_pos ⟨t.lower, t.upper⟩
      rw [ht]
      refine (yields_fit (by omega) (by omega)).bind_ok ?_
      refine (yields_fit (by omega) (by omega)).bind_ok ?_
      rw [hcount]
      exact yields_pure t
  · next hrange =>
      have hnone : ofSeconds? seconds nanos = none := dif_neg fun h => hrange ⟨h.1, h.2.1⟩
      rw [hnone]
      exact yields_throw .range

/-- **Nothing overflows**: in words of 64 bits every text is read as without them. -/
theorem yields_parseInWords (text : Bytes) : Yields (parseInWords text) (parse text) := by
  unfold parseInWords parse
  have hclock := yields_readWallClock text
  cases htake : takeWallClock? text with
  | none =>
      rw [htake] at hclock
      exact hclock.bind (g := fun _ => .error .shape) fun a ha => nomatch ha
  | some part =>
  obtain ⟨clock, rest⟩ := part
  rw [htake] at hclock
  obtain ⟨c, -, rfl⟩ := exists_of_takeWallClock? htake
  refine hclock.bind_ok ?_
  dsimp only
  split
  · exact yields_throw .timeOfDay
  refine (yields_readFraction rest).bind ?_
  rintro ⟨nanos, rest⟩ hfraction
  obtain ⟨f, -, rfl⟩ := exists_of_takeFraction hfraction
  refine (yields_readOffset rest).bind ?_
  rintro ⟨ahead, rest⟩ hoffset
  obtain ⟨zone, -, rfl, hrange⟩ := exists_of_takeOffset hoffset
  dsimp only
  split
  · exact yields_throw .trailing
  split
  · exact yields_throw .date
  · refine (yields_countSeconds c hrange).bind_ok ?_
    have hinstant := yields_readSeconds (c.reading.seconds - zone.minutesAhead * 60) (fractionNanos_lt f)
    cases hfound : ofSeconds? (c.reading.seconds - zone.minutesAhead * 60) (fractionNanos f) with
    | none =>
        rw [hfound] at hinstant
        exact hinstant
    | some t =>
        rw [hfound] at hinstant
        exact hinstant

end SignedAudit.Instant
