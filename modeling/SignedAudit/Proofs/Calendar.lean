import SignedAudit.Calendar

namespace SignedAudit

/-! # The day of every number

Every integer is the number of exactly one day: `Date.ofDayNumber` yields a day of the calendar, and
`Date.dayNumber` gives the number back. The year is found because the estimate by the mean length of a
year is off by one at most, and the month because the twelve lengths of a year add up to the distance
of two years. -/

namespace Calendar

/-- The year that is found holds the day. -/
theorem daysBeforeYear_yearOfDay (day : Int) :
    daysBeforeYear (yearOfDay day) ≤ day ∧ day < daysBeforeYear (yearOfDay day + 1) := by
  -- the estimate is off by one at most, either way
  have hlow : daysBeforeYear (1970 + day * 400 / 146097 - 1) ≤ day := by
    unfold daysBeforeYear
    omega
  have hhigh : day < daysBeforeYear (1970 + day * 400 / 146097 + 2) := by
    unfold daysBeforeYear
    omega
  unfold yearOfDay
  simp only
  split
  · next h => exact ⟨hlow, by rwa [Int.sub_add_cancel]⟩
  · split
    · next h => exact ⟨h, by rwa [Int.add_assoc]⟩
    · next h h' => exact ⟨by omega, by omega⟩

/-- The months of a year make up the year. -/
theorem daysIn_monthLengths (year : Int) :
    (daysIn (monthLengths year) : Int) = daysBeforeYear (year + 1) - daysBeforeYear year := by
  unfold monthLengths isLeap daysBeforeYear
  simp only [daysIn_cons, daysIn_nil, Bool.and_eq_true, Bool.or_eq_true, beq_iff_eq, bne_iff_ne]
  split <;> omega

theorem length_monthLengths (year : Int) : (monthLengths year).length = 12 := rfl

theorem le_of_mem_monthLengths {year : Int} {n : Nat} (h : n ∈ monthLengths year) : n ≤ 31 := by
  unfold monthLengths at h
  simp only [List.mem_cons, List.not_mem_nil, or_false] at h
  split at h <;> omega

/-- Walking through months stops in the month that holds the day: the days of the months before it and
the days into it are the days walked. -/
theorem walkMonths_spec {lengths : List Nat} {days : Nat} (h : days < daysIn lengths) (month : Nat) :
    ∃ passed into, walkMonths lengths month days = (month + passed, into + 1)
      ∧ into < lengths.getD passed 0 ∧ daysIn (lengths.take passed) + into = days := by
  induction lengths generalizing month days with
  | nil => exact absurd h (Nat.not_lt_zero days)
  | cons length rest ih =>
      unfold walkMonths
      by_cases hlt : days < length
      · exact ⟨0, days, by rw [if_pos hlt]; rfl, hlt, Nat.zero_add days⟩
      · -- one more month is passed, and the walk goes on with the days behind it
        rw [daysIn_cons] at h
        have hrest : days - length < daysIn rest := by omega
        obtain ⟨passed, into, hwalk, hinto, hsum⟩ := ih hrest (month + 1)
        refine ⟨passed + 1, into, ?_, hinto, ?_⟩
        · rw [if_neg hlt, hwalk, Nat.add_right_comm, Nat.add_assoc]
        · rw [List.take_succ_cons, daysIn_cons]
          omega

end Calendar

namespace Date

open Calendar

@[simp] theorem year_ofDayNumber (day : Int) : (ofDayNumber day).year = yearOfDay day := rfl

/-- The month and the day of the month that a day number leads to. -/
theorem ofDayNumber_spec (day : Int) :
    ∃ passed into, ofDayNumber day = ⟨yearOfDay day, 1 + passed, into + 1⟩
      ∧ into < (monthLengths (yearOfDay day)).getD passed 0
      ∧ (daysIn ((monthLengths (yearOfDay day)).take passed) + into : Int)
        = day - daysBeforeYear (yearOfDay day) := by
  obtain ⟨hfrom, hto⟩ := daysBeforeYear_yearOfDay day
  have hsum := daysIn_monthLengths (yearOfDay day)
  have hlt : (day - daysBeforeYear (yearOfDay day)).toNat < daysIn (monthLengths (yearOfDay day)) := by
    omega
  obtain ⟨passed, into, hwalk, hinto, htotal⟩ := walkMonths_spec hlt 1
  refine ⟨passed, into, ?_, hinto, by omega⟩
  unfold ofDayNumber
  simp only [hwalk]

/-- **Every number is the number of its day.** -/
theorem dayNumber_ofDayNumber (day : Int) : (ofDayNumber day).dayNumber = day := by
  obtain ⟨passed, into, hdate, -, htotal⟩ := ofDayNumber_spec day
  rw [hdate, dayNumber]
  simp only [Nat.add_sub_cancel_left]
  omega

/-- The day of a number is a day of the calendar. -/
theorem isValid_ofDayNumber (day : Int) : (ofDayNumber day).isValid = true := by
  obtain ⟨passed, into, hdate, hinto, -⟩ := ofDayNumber_spec day
  rw [hdate, isValid]
  simp only [Nat.add_sub_cancel_left, Bool.and_eq_true, decide_eq_true_eq]
  omega

/-- A day of the calendar is in one of twelve months and has at most 31 before the next one. -/
theorem bounds_of_isValid {d : Date} (h : d.isValid = true) :
    1 ≤ d.month ∧ d.month ≤ 12 ∧ 1 ≤ d.day ∧ d.day ≤ 31 := by
  unfold isValid at h
  simp only [Bool.and_eq_true, decide_eq_true_eq] at h
  obtain ⟨⟨hmonth, hday⟩, hlast⟩ := h
  by_cases hin : d.month - 1 < (monthLengths d.year).length
  · have hle : (monthLengths d.year).getD (d.month - 1) 0 ≤ 31 := by
      rw [← List.getElem_eq_getD (h := hin)]
      exact le_of_mem_monthLengths (List.getElem_mem hin)
    rw [length_monthLengths] at hin
    omega
  · rw [List.getD_eq_getElem?_getD, List.getElem?_eq_none (by omega), Option.getD_none] at hlast
    omega

end Date

end SignedAudit
