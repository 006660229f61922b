import SignedAudit.Proofs.Calendar

namespace SignedAudit

/-! # Days counted one by one

The number of a day is what counting gives: the epoch has the number 0, and the day after a day has the next
number. A day follows its predecessor within the month as long as the month lasts, and then on the first of
the next month. `Date.dayNumber` agrees with the count on every day of the calendar, every day is
reached, and `Date.ofDayNumber` undoes `Date.dayNumber`, so that days and integers correspond. -/

namespace Calendar

/-! ## Years -/

/-- Years begin one after the other. -/
theorem daysBeforeYear_succ_le {y z : Int} (h : y < z) : daysBeforeYear (y + 1) ≤ daysBeforeYear z := by
  unfold daysBeforeYear
  omega

/-- **A day lies in one year.** -/
theorem yearOfDay_eq {year day : Int} (hfrom : daysBeforeYear year ≤ day)
    (hto : day < daysBeforeYear (year + 1)) : yearOfDay day = year := by
  obtain ⟨hfrom', hto'⟩ := daysBeforeYear_yearOfDay day
  rcases Int.lt_trichotomy (yearOfDay day) year with hlt | heq | hgt
  · have hle := daysBeforeYear_succ_le hlt
    omega
  · exact heq
  · have hle := daysBeforeYear_succ_le hgt
    omega

/-! ## Months -/

/-- What the months up to one make up, that month included, is not more than the whole. -/
theorem daysIn_take_add_getD_le (lengths : List Nat) (passed : Nat) :
    daysIn (lengths.take passed) + lengths.getD passed 0 ≤ daysIn lengths := by
  induction lengths generalizing passed with
  | nil => rw [List.take_nil]; exact Nat.le_refl 0
  | cons length rest ih =>
      cases passed with
      | zero =>
          show 0 + length ≤ daysIn (length :: rest)
          rw [daysIn_cons]
          omega
      | succ passed =>
          have hrest := ih passed
          rw [List.take_succ_cons, daysIn_cons, daysIn_cons, List.getD_cons_succ]
          omega

/-- The days of one more month. -/
theorem daysIn_take_succ (lengths : List Nat) (passed : Nat) :
    daysIn (lengths.take (passed + 1)) = daysIn (lengths.take passed) + lengths.getD passed 0 := by
  induction lengths generalizing passed with
  | nil => rw [List.take_nil, List.take_nil]; rfl
  | cons length rest ih =>
      cases passed with
      | zero => rw [List.take_succ_cons, List.take_zero, List.take_zero, daysIn_cons]; exact Nat.add_comm _ _
      | succ passed =>
          rw [List.take_succ_cons, daysIn_cons, ih, List.take_succ_cons, daysIn_cons,
            List.getD_cons_succ, Nat.add_assoc]

/-- A walk over the days of whole months and some days of the next one stops in that month. -/
theorem walkMonths_of_lt {lengths : List Nat} {passed into : Nat} (h : into < lengths.getD passed 0)
    (month : Nat) :
    walkMonths lengths month (daysIn (lengths.take passed) + into) = (month + passed, into + 1) := by
  induction lengths generalizing passed month with
  | nil => exact absurd h (Nat.not_lt_zero into)
  | cons length rest ih =>
      unfold walkMonths
      cases passed with
      | zero =>
          rw [List.take_zero, daysIn_nil, Nat.zero_add]
          exact if_pos h
      | succ passed =>
          rw [List.take_succ_cons, daysIn_cons, if_neg (by omega), Nat.add_assoc,
            Nat.add_sub_cancel_left, ih h, Nat.add_right_comm, Nat.add_assoc]

end Calendar

namespace Date

open Calendar

/-! ## Days of the calendar -/

/-- The days that the month of a date has. -/
def monthLength (d : Date) : Nat := (monthLengths d.year).getD (d.month - 1) 0

theorem isValid_iff (d : Date) :
    d.isValid = true ↔ 1 ≤ d.month ∧ d.month ≤ 12 ∧ 1 ≤ d.day ∧ d.day ≤ d.monthLength := by
  constructor
  · intro h
    obtain ⟨hmonth, htwelve, hday, -⟩ := bounds_of_isValid h
    unfold isValid at h
    simp only [Bool.and_eq_true, decide_eq_true_eq] at h
    exact ⟨hmonth, htwelve, hday, h.2⟩
  · rintro ⟨hmonth, -, hday, hlast⟩
    unfold isValid
    simp only [Bool.and_eq_true, decide_eq_true_eq]
    exact ⟨⟨hmonth, hday⟩, hlast⟩

/-- The number of a day of the calendar lies within its year. -/
theorem dayNumber_bounds {d : Date} (h : d.isValid = true) :
    daysBeforeYear d.year ≤ d.dayNumber ∧ d.dayNumber < daysBeforeYear (d.year + 1) := by
  obtain ⟨hmonth, -, hday, hlast⟩ := (isValid_iff d).mp h
  have hsum := daysIn_monthLengths d.year
  have hle := daysIn_take_add_getD_le (monthLengths d.year) (d.month - 1)
  unfold monthLength at hlast
  unfold dayNumber
  omega

/-- **Every day is the day of its number.** -/
theorem ofDayNumber_dayNumber {d : Date} (h : d.isValid = true) : ofDayNumber d.dayNumber = d := by
  obtain ⟨hmonth, -, hday, hlast⟩ := (isValid_iff d).mp h
  obtain ⟨hfrom, hto⟩ := dayNumber_bounds h
  have hinto : d.day - 1 < (monthLengths d.year).getD (d.month - 1) 0 := by
    unfold monthLength at hlast
    omega
  have hdays : (d.dayNumber - daysBeforeYear d.year).toNat
      = daysIn ((monthLengths d.year).take (d.month - 1)) + (d.day - 1) := by
    unfold dayNumber
    omega
  unfold ofDayNumber
  simp only [yearOfDay_eq hfrom hto, hdays, walkMonths_of_lt hinto]
  cases d
  simp only [mk.injEq, true_and]
  exact ⟨Nat.add_sub_cancel' hmonth, Nat.sub_add_cancel hday⟩

/-! ## The day after -/

/-- The day after a day. -/
def next (d : Date) : Date :=
  if d.day < d.monthLength then ⟨d.year, d.month, d.day + 1⟩
  else if d.month < 12 then ⟨d.year, d.month + 1, 1⟩
  else ⟨d.year + 1, 1, 1⟩

/-- No month is empty. -/
theorem one_le_monthLength {d : Date} (hmonth : 1 ≤ d.month) (htwelve : d.month ≤ 12) :
    1 ≤ d.monthLength := by
  have hlt : d.month - 1 < (monthLengths d.year).length := by
    rw [length_monthLengths]
    omega
  have hmem : (monthLengths d.year)[d.month - 1] ∈ monthLengths d.year := List.getElem_mem hlt
  have hlength : d.monthLength = (monthLengths d.year)[d.month - 1] := (List.getElem_eq_getD 0).symm
  rw [hlength]
  generalize (monthLengths d.year)[d.month - 1] = length at hmem ⊢
  unfold monthLengths at hmem
  simp only [List.mem_cons, List.not_mem_nil, or_false] at hmem
  split at hmem <;> omega

/-- The day after a day of the calendar is one, too. -/
theorem isValid_next {d : Date} (h : d.isValid = true) : d.next.isValid = true := by
  obtain ⟨hmonth, htwelve, hday, -⟩ := (isValid_iff d).mp h
  rw [isValid_iff]
  unfold next
  split
  · next hlast => exact ⟨hmonth, htwelve, Nat.le_add_left 1 d.day, hlast⟩
  · split
    · next hlt =>
        exact ⟨Nat.le_add_left 1 d.month, hlt, Nat.le_refl 1, one_le_monthLength (Nat.le_add_left 1 d.month) hlt⟩
    · have htwelve' : 1 ≤ 12 := by decide
      exact ⟨Nat.le_refl 1, htwelve', Nat.le_refl 1, one_le_monthLength (Nat.le_refl 1) htwelve'⟩

/-- **The day after has the next number**, within a month, from month to month and from year to
year. -/
theorem dayNumber_next {d : Date} (h : d.isValid = true) : d.next.dayNumber = d.dayNumber + 1 := by
  obtain ⟨hmonth, htwelve, hday, hlast⟩ := (isValid_iff d).mp h
  have hsucc := daysIn_take_succ (monthLengths d.year) (d.month - 1)
  rw [Nat.sub_add_cancel hmonth] at hsucc
  unfold monthLength at hlast
  unfold next monthLength
  split
  · unfold dayNumber
    dsimp only
    omega
  · split
    · -- the month is over, and the months passed are one more
      unfold dayNumber
      simp only [Nat.add_sub_cancel]
      omega
    · -- the year is over, and its months make up the distance to the next one
      have hall : (monthLengths d.year).take d.month = monthLengths d.year :=
        List.take_of_length_le (by rw [length_monthLengths]; omega)
      have hsum := daysIn_monthLengths d.year
      rw [hall] at hsucc
      unfold dayNumber
      simp only [Nat.sub_self, List.take_zero, daysIn_nil]
      omega

/-! ## Counting -/

/-- **Counting**: the epoch has the number 0, and numbers go up by one from each day to the day after
it. -/
inductive HasNumber : Date → Int → Prop
  | epoch : HasNumber ⟨1970, 1, 1⟩ 0
  | after {d : Date} {n : Int} : HasNumber d n → HasNumber d.next (n + 1)
  | before {d : Date} {n : Int} : d.isValid = true → HasNumber d.next (n + 1) → HasNumber d n

/-- What is counted are days of the calendar, and their numbers are the computed ones. -/
theorem HasNumber.sound {d : Date} {n : Int} (h : d.HasNumber n) :
    d.isValid = true ∧ n = d.dayNumber := by
  induction h with
  | epoch => exact ⟨by decide, by decide⟩
  | @after d n _ ih =>
      obtain ⟨hvalid, rfl⟩ := ih
      exact ⟨isValid_next hvalid, (dayNumber_next hvalid).symm⟩
  | @before d n hvalid _ ih =>
      have hnext := dayNumber_next hvalid
      exact ⟨hvalid, by omega⟩

/-- The day of the next number is the day after. -/
theorem ofDayNumber_succ (n : Int) : ofDayNumber (n + 1) = (ofDayNumber n).next := by
  have hvalid := isValid_ofDayNumber n
  have hnumber : (ofDayNumber n).next.dayNumber = n + 1 := by
    rw [dayNumber_next hvalid, dayNumber_ofDayNumber]
  rw [← hnumber, ofDayNumber_dayNumber (isValid_next hvalid)]

/-- Counting up and down from the epoch reaches every number. -/
theorem hasNumber_ofDayNumber (n : Int) : (ofDayNumber n).HasNumber n := by
  have hepoch : ofDayNumber 0 = ⟨1970, 1, 1⟩ := by decide
  have hup : ∀ k : Nat, (ofDayNumber k).HasNumber k := by
    intro k
    induction k with
    | zero =>
        show (ofDayNumber 0).HasNumber 0
        rw [hepoch]
        exact .epoch
    | succ k ih =>
        show (ofDayNumber ((k : Int) + 1)).HasNumber ((k : Int) + 1)
        rw [ofDayNumber_succ]
        exact ih.after
  have hdown : ∀ k : Nat, (ofDayNumber (-(k : Int))).HasNumber (-(k : Int)) := by
    intro k
    induction k with
    | zero =>
        show (ofDayNumber 0).HasNumber 0
        rw [hepoch]
        exact .epoch
    | succ k ih =>
        apply HasNumber.before (isValid_ofDayNumber _)
        rw [← ofDayNumber_succ]
        have hnumber : -((k + 1 : Nat) : Int) + 1 = -(k : Int) := by omega
        rw [hnumber]
        exact ih
  rcases Int.le_total 0 n with h | h
  · obtain ⟨k, rfl⟩ := Int.eq_ofNat_of_zero_le h
    exact hup k
  · obtain ⟨k, hk⟩ := Int.eq_ofNat_of_zero_le (Int.neg_nonneg_of_nonpos h)
    have hn : n = -(k : Int) := by omega
    rw [hn]
    exact hdown k

/-- **Counting reaches the days of the calendar, and gives them their numbers.** -/
theorem hasNumber_iff (d : Date) (n : Int) : d.HasNumber n ↔ d.isValid = true ∧ n = d.dayNumber := by
  constructor
  · exact HasNumber.sound
  · rintro ⟨hvalid, rfl⟩
    have h := hasNumber_ofDayNumber d.dayNumber
    rw [ofDayNumber_dayNumber hvalid] at h
    exact h

end Date

end SignedAudit
