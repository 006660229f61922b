import Mathlib.Order.Monotone.Basic
import SignedAudit.Proofs.InstantWriting

namespace SignedAudit

/-! # Canonical texts sort as the instants do

Numerals of one width are in the order of their numbers, and so texts that are made of such numerals, one for each
unit from the greatest to the least, are in the order in which the units are compared one after the other. For
days this is the order of their numbers, as each day is followed by one with a greater year, month or day; for
times of day it is the order of the seconds. Texts are compared byte by byte, the bytes as numbers. -/

/-! ## Numerals of one width -/

/-- Behind parts of one length the rest is compared only where the parts are the same. -/
theorem Bytes.append_lt_append_iff {a b : Bytes} (h : a.length = b.length) (x y : Bytes) :
    a ++ x < b ++ y ↔ a < b ∨ a = b ∧ x < y := by
  induction a generalizing b with
  | nil =>
      cases b with
      | nil => simp only [List.nil_append, List.lt_irrefl, false_or, true_and]
      | cons c b => cases h
  | cons c a ih =>
      cases b with
      | nil => cases h
      | cons d b =>
          simp only [List.cons_append, List.cons_lt_cons_iff, ih (Nat.succ.inj h), List.cons.injEq,
            and_or_left, or_assoc, and_assoc]

namespace Decimal

/-- **Numerals of one width sort as their numbers.** -/
theorem fixed_lt_fixed_iff {width m n : Nat} (hm : m < 10 ^ width) (hn : n < 10 ^ width) :
    fixed width m < fixed width n ↔ m < n := by
  induction width generalizing m n with
  | zero =>
      have hzero : m = 0 ∧ n = 0 := by
        rw [Nat.pow_zero] at hm hn
        omega
      rw [hzero.1, hzero.2]
      simp only [fixed, List.lt_irrefl, Nat.lt_irrefl]
  | succ width ih =>
      rw [Nat.pow_succ] at hm hn
      have hm' : m / 10 < 10 ^ width := by omega
      have hn' : n / 10 < 10 ^ width := by omega
      have hlength : (fixed width (m / 10)).length = (fixed width (n / 10)).length := by
        rw [length_fixed, length_fixed]
      have hfront : fixed width (m / 10) = fixed width (n / 10) ↔ m / 10 = n / 10 :=
        ⟨fixed_inj hm' hn', fun h => by rw [h]⟩
      have hdigit : [digit (m % 10)] < [digit (n % 10)] ↔ m % 10 < n % 10 := by
        rw [List.cons_lt_cons_iff, UInt8.lt_iff_toNat_lt, toNat_digit (Nat.mod_lt m (by decide)),
          toNat_digit (Nat.mod_lt n (by decide))]
        simp only [List.lt_irrefl, and_false, or_false, Nat.add_lt_add_iff_left]
      rw [fixed, fixed, Bytes.append_lt_append_iff hlength, ih hm' hn', hfront, hdigit]
      omega

/-- A numeral in front of a text is compared first. -/
theorem fixed_append_lt_iff {width m n : Nat} (hm : m < 10 ^ width) (hn : n < 10 ^ width) (x y : Bytes) :
    fixed width m ++ x < fixed width n ++ y ↔ m < n ∨ m = n ∧ x < y := by
  have hlength : (fixed width m).length = (fixed width n).length := by rw [length_fixed, length_fixed]
  have heq : fixed width m = fixed width n ↔ m = n := ⟨fixed_inj hm hn, fun h => by rw [h]⟩
  rw [Bytes.append_lt_append_iff hlength, fixed_lt_fixed_iff hm hn, heq]

end Decimal

/-! ## Days -/

namespace Date

/-- The number that year, month and day make when they are written one behind the other. -/
def packed (d : Date) : Int := (d.year * 100 + d.month) * 100 + d.day

/-- The day after has the greater year, month or day. -/
theorem packed_lt_packed_next {d : Date} (h : d.isValid = true) : d.packed < d.next.packed := by
  obtain ⟨hmonth, htwelve, hday, hlast⟩ := bounds_of_isValid h
  unfold next packed
  split
  · dsimp only
    omega
  · split <;>
      · dsimp only
        omega

/-- **Days are in the order of their years, months and days.** -/
theorem packed_ofDayNumber_lt_iff {m n : Int} : (ofDayNumber m).packed < (ofDayNumber n).packed ↔ m < n := by
  have hmono : StrictMono fun day : Int => (ofDayNumber day).packed := by
    apply strictMono_int_of_lt_succ
    intro day
    rw [ofDayNumber_succ]
    exact packed_lt_packed_next (isValid_ofDayNumber day)
  exact hmono.lt_iff_lt

end Date

namespace Instant

open Decimal

/-! ## Seconds -/

/-- The text of a day, in front of whatever follows. -/
theorem dayText_lt_iff {m n : Int} (hm : 0 ≤ Calendar.yearOfDay m ∧ Calendar.yearOfDay m < 10000)
    (hn : 0 ≤ Calendar.yearOfDay n ∧ Calendar.yearOfDay n < 10000) (x y : Bytes) :
    fixed 4 (Date.ofDayNumber m).year.toNat
          ++ Ascii.dash :: (fixed 2 (Date.ofDayNumber m).month
            ++ Ascii.dash :: (fixed 2 (Date.ofDayNumber m).day ++ x))
        < fixed 4 (Date.ofDayNumber n).year.toNat
          ++ Ascii.dash :: (fixed 2 (Date.ofDayNumber n).month
            ++ Ascii.dash :: (fixed 2 (Date.ofDayNumber n).day ++ y))
      ↔ m < n ∨ m = n ∧ x < y := by
  rw [← Date.year_ofDayNumber] at hm hn
  obtain ⟨-, hmm, -, hmd⟩ := Date.bounds_of_isValid (Date.isValid_ofDayNumber m)
  obtain ⟨-, hnm, -, hnd⟩ := Date.bounds_of_isValid (Date.isValid_ofDayNumber n)
  have hlt := Date.packed_ofDayNumber_lt_iff (m := m) (n := n)
  have hgt := Date.packed_ofDayNumber_lt_iff (m := n) (n := m)
  have heq : (Date.ofDayNumber m).packed = (Date.ofDayNumber n).packed ↔ m = n :=
    ⟨fun hsame => by omega, fun hsame => by rw [hsame]⟩
  unfold Date.packed at hlt heq
  rw [← hlt, ← heq, fixed_append_lt_iff (by omega) (by omega), List.cons_lt_cons_iff,
    fixed_append_lt_iff (by omega) (by omega), List.cons_lt_cons_iff,
    fixed_append_lt_iff (by omega) (by omega)]
  simp only [UInt8.lt_irrefl, false_or, true_and]
  -- what follows decides where the three numbers are the same, whatever it is
  generalize (x < y) = rest
  by_cases hrest : rest <;> simp only [hrest, and_true, and_false, or_false] <;> omega

/-- The text of a time of day, in front of whatever follows. -/
theorem timeText_lt_iff {m n : Nat} (hm : m < 86400) (hn : n < 86400) (x y : Bytes) :
    fixed 2 (m / 3600) ++ Ascii.colon :: (fixed 2 (m / 60 % 60) ++ Ascii.colon :: (fixed 2 (m % 60) ++ x))
        < fixed 2 (n / 3600) ++ Ascii.colon :: (fixed 2 (n / 60 % 60) ++ Ascii.colon :: (fixed 2 (n % 60) ++ y))
      ↔ m < n ∨ m = n ∧ x < y := by
  rw [fixed_append_lt_iff (by omega) (by omega), List.cons_lt_cons_iff,
    fixed_append_lt_iff (by omega) (by omega), List.cons_lt_cons_iff,
    fixed_append_lt_iff (by omega) (by omega)]
  simp only [UInt8.lt_irrefl, false_or, true_and]
  generalize (x < y) = rest
  by_cases hrest : rest <;> simp only [hrest, and_true, and_false, or_false] <;> omega

/-- The text of seconds, in front of whatever follows. -/
theorem secondsText_append_lt_iff {s t : Int} (hs : HasFourDigitYear s) (ht : HasFourDigitYear t)
    (x y : Bytes) : secondsText s ++ x < secondsText t ++ y ↔ s < t ∨ s = t ∧ x < y := by
  simp only [secondsText, List.append_assoc, List.cons_append, List.nil_append]
  rw [dayText_lt_iff hs ht, List.cons_lt_cons_iff, timeText_lt_iff (by omega) (by omega)]
  simp only [UInt8.lt_irrefl, false_or, true_and]
  generalize (x < y) = rest
  by_cases hrest : rest <;> simp only [hrest, and_true, and_false, or_false] <;> omega

/-! ## Instants -/

/-- **Canonical texts sort as the instants do.** -/
theorem canonicalText_lt_canonicalText_iff (t u : Instant) : t.canonicalText < u.canonicalText ↔ t.ns < u.ns := by
  have ht := t.ns_eq
  have hu := u.ns_eq
  have hnanos := t.nanos_lt
  have hnanos' := u.nanos_lt
  simp only [canonicalText, List.append_assoc, List.cons_append, List.nil_append]
  rw [secondsText_append_lt_iff t.hasFourDigitYear_wholeSeconds u.hasFourDigitYear_wholeSeconds,
    List.cons_lt_cons_iff, fixed_append_lt_iff hnanos hnanos']
  simp only [UInt8.lt_irrefl, List.lt_irrefl, false_or, true_and, and_false, or_false]
  omega

/-- **A clock and nine digits behind it name an instant**: the day exists, it is a time of that day, and counted from
the epoch the seconds are those of the instant, rounded to the past, and the digits the rest. -/
structure Names (t : Instant) (clock : WrittenClock) (fraction : Row 9) : Prop where
  hour : clock.hour.value ≤ 23
  minute : clock.minute.value ≤ 59
  second : clock.second.value ≤ 59
  seconds : ∃ day, clock.date.HasNumber day
    ∧ ((day * 24 + clock.hour.value) * 60 + clock.minute.value) * 60 + clock.second.value
      = t.ns.fdiv 1000000000
  fraction : fraction.value = t.ns.fmod 1000000000

/-- What the canonical text writes names the instant. -/
theorem names_ofInstant (t : Instant) : t.Names (.ofSeconds t.wholeSeconds) (.ofNat 9 t.nanos) := by
  obtain ⟨hdate, hhour, hminute, hsecond, -⟩ := Written.exists_ofInstant t
  refine ⟨hhour, hminute, hsecond, ⟨_, (Date.hasNumber_iff _ _).mpr ⟨hdate, rfl⟩, ?_⟩, ?_⟩
  · rw [Int.fdiv_eq_ediv_of_nonneg _ (by decide)]
    exact (Int.sub_zero _).symm.trans (Written.secondsOn_ofInstant t)
  · rw [Row.value_ofNat t.nanos_lt, Int.fmod_eq_emod_of_nonneg _ (by decide)]
    unfold nanos
    omega

/-- **The canonical text names the instant and sorts as it does.** For every count of nanoseconds it has 30 bytes, a
date, a time of day and nine digits of a second, which name the proleptic Gregorian day and the time at UTC of the
whole seconds, rounded to the past, and the rest, which is not negative; computed in words it comes to the same, as
nothing overflows on the way. And of two instants the earlier one has the smaller text. -/
theorem canonicalText_names_and_sorts :
    (∀ t : Instant, t.canonicalText.length = 30
      ∧ (∃ (clock : WrittenClock) (fraction : Row 9),
        t.canonicalText = clock.text ++ Ascii.point :: fraction.digits ++ [Ascii.upperZ]
          ∧ t.Names clock fraction)
      ∧ (canonicalTextInWords t).run = some (.ok t.canonicalText))
      ∧ ∀ t u : Instant, t.ns < u.ns ↔ t.canonicalText < u.canonicalText := by
  constructor
  · intro t
    exact ⟨t.length_canonicalText, ⟨_, _, (Written.text_ofInstant t).symm, t.names_ofInstant⟩,
      yields_canonicalTextInWords t⟩
  · intro t u
    exact (canonicalText_lt_canonicalText_iff t u).symm

/-- Just before the epoch most digits are at their greatest, and yet the text is the smaller one. -/
example : canonicalText ⟨-1, by decide, by decide⟩ < canonicalText epoch := by decide

end Instant

end SignedAudit
