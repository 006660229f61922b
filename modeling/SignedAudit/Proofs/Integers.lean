import Mathlib.Data.List.Induction
import Mathlib.Data.List.TakeWhile
import Mathlib.Data.Nat.Digits.Defs
import SignedAudit.Proofs.InstantGrammar
import SignedAudit.Proofs.Requests

namespace SignedAudit

/-! # Integers in arguments

An integer is written as one or more digits, with a minus sign in front or without, and stands for what positional
notation says. An argument is read as an integer exactly when it is such a numeral from its first byte to its last
and a signed word of the wanted size can hold the number. Reading digit by digit in words of that size comes to the
same: a number on the way that does not fit is followed by greater ones only, at both ends of the range. What is
written of a number afterwards is its normal form, so that a receipt does not show how an argument was spelled. -/

namespace Decimal

/-! ## Positional notation -/

/-- The number of a digit. -/
def digitValue (b : UInt8) : Nat := b.toNat - Ascii.zero.toNat

/-- **A row of digits stands for the number that it has in positional notation**, the last digit counting
units. -/
theorem value_eq_ofDigits (digits : Bytes) : value digits = Nat.ofDigits 10 (digits.map digitValue).reverse := by
  rw [Nat.ofDigits_eq_foldr, List.foldr_reverse, List.foldl_map]
  show digits.foldl (fun n b => n * 10 + digitValue b) 0 = digits.foldl (fun n b => digitValue b + 10 * n) 0
  congr 1
  funext n b
  rw [Nat.add_comm, Nat.mul_comm]

theorem digitValue_lt {b : UInt8} (h : isDigit b = true) : digitValue b < 10 := by
  have hb := (isDigit_iff b).mp h
  have hzero : Ascii.zero.toNat = 48 := rfl
  unfold digitValue
  omega

theorem digit_digitValue {b : UInt8} (h : isDigit b = true) : digit (digitValue b) = b := by
  have hb := (isDigit_iff b).mp h
  have hzero : Ascii.zero.toNat = 48 := rfl
  apply UInt8.toNat_inj.mp
  rw [toNat_digit (digitValue_lt h)]
  unfold digitValue
  omega

/-- One more digit behind a row. -/
theorem value_append_singleton (digits : Bytes) {b : UInt8} (h : isDigit b = true) :
    value (digits ++ [b]) = value digits * 10 + digitValue b := by
  have hone := value_concat digits (digitValue_lt h)
  rwa [digit_digitValue h] at hone

/-! ## Numerals -/

/-- An integer as it is written: with a minus sign or without, in one or more digits. -/
structure Numeral where
  negative : Bool
  width : Nat
  pos : 1 ≤ width
  row : Row width

namespace Numeral

/-- The text of a numeral. -/
def text (w : Numeral) : Bytes := (if w.negative then [Ascii.dash] else []) ++ w.row.digits

/-- The number that the digits make in positional notation. -/
def magnitude (w : Numeral) : Nat := Nat.ofDigits 10 (w.row.digits.map digitValue).reverse

/-- The number that a numeral stands for. -/
def number (w : Numeral) : Int := if w.negative then -(w.magnitude : Int) else w.magnitude

/-- **Normal**: no zero in front of another digit, and no minus sign before zero. -/
structure IsNormal (w : Numeral) : Prop where
  front : w.row.digits.head? = some Ascii.zero → w.width = 1
  sign : w.negative = true → w.number ≠ 0

theorem digits_ne_nil (w : Numeral) : w.row.digits ≠ [] := by
  intro hnil
  have hlength := w.row.length_digits
  have hpos := w.pos
  rw [hnil, List.length_nil] at hlength
  omega

/-- A row of one or more digits behind a sign. -/
def ofDigits (negative : Bool) (digits : Bytes) (hne : digits ≠ []) (h : ∀ b ∈ digits, isDigit b = true) :
    Numeral :=
  ⟨negative, digits.length, List.length_pos_iff.mpr hne, digits, rfl, h⟩

theorem number_ofDigits (negative : Bool) {digits : Bytes} (hne : digits ≠ [])
    (h : ∀ b ∈ digits, isDigit b = true) :
    (ofDigits negative digits hne h).number = if negative then -(value digits : Int) else value digits := by
  rw [value_eq_ofDigits]
  rfl

end Numeral

theorem nat?_eq_some_iff (text : Bytes) (n : Nat) :
    nat? text = some n ↔ text ≠ [] ∧ (∀ b ∈ text, isDigit b = true) ∧ value text = n := by
  have hall : text.all isDigit = true ↔ ∀ b ∈ text, isDigit b = true := List.all_eq_true
  unfold nat?
  split
  · next h => exact ⟨fun hn => ⟨h.1, hall.mp h.2, Option.some.inj hn⟩, fun hn => congrArg some hn.2.2⟩
  · next h => exact ⟨fun hnone => (nomatch hnone), fun hn => absurd ⟨hn.1, hall.mpr hn.2.1⟩ h⟩

theorem int?_cons (b : UInt8) (rest : Bytes) :
    int? (b :: rest) =
      if b = Ascii.dash then (nat? rest).map fun m : Nat => -(m : Int)
      else (nat? (b :: rest)).map fun m : Nat => (m : Int) := by
  simp only [int?]
  cases nat? rest <;> cases nat? (b :: rest) <;> rfl

/-- **A text is read as an integer exactly when it is a numeral, and as the number of the numeral.** -/
theorem int?_eq_some_iff (text : Bytes) (n : Int) :
    int? text = some n ↔ ∃ w : Numeral, w.text = text ∧ w.number = n := by
  constructor
  · intro h
    cases text with
    | nil => cases h
    | cons b rest =>
        rw [int?_cons] at h
        split at h
        · next hdash =>
            obtain ⟨m, hm, rfl⟩ := Option.map_eq_some_iff.mp h
            obtain ⟨hne, hall, rfl⟩ := (nat?_eq_some_iff rest m).mp hm
            exact ⟨.ofDigits true rest hne hall, by rw [hdash]; rfl, Numeral.number_ofDigits _ hne hall⟩
        · obtain ⟨m, hm, rfl⟩ := Option.map_eq_some_iff.mp h
          obtain ⟨hne, hall, rfl⟩ := (nat?_eq_some_iff (b :: rest) m).mp hm
          exact ⟨.ofDigits false (b :: rest) hne hall, rfl, Numeral.number_ofDigits _ hne hall⟩
  · rintro ⟨w, rfl, rfl⟩
    have hdigits : nat? w.row.digits = some w.magnitude :=
      (nat?_eq_some_iff _ _).mpr ⟨w.digits_ne_nil, w.row.isDigit_of_mem, value_eq_ofDigits _⟩
    unfold Numeral.text Numeral.number
    cases w.negative with
    | true =>
        show int? (Ascii.dash :: w.row.digits) = some (-(w.magnitude : Int))
        rw [int?_cons, if_pos rfl, hdigits]
        rfl
    | false =>
        show int? w.row.digits = some (w.magnitude : Int)
        obtain ⟨b, rest, hcons⟩ := List.exists_cons_of_ne_nil w.digits_ne_nil
        have hb : b ≠ Ascii.dash := by
          rintro rfl
          have hdash := w.row.isDigit_of_mem Ascii.dash (by rw [hcons]; exact List.mem_cons_self)
          exact absurd hdash (by decide)
        rw [hcons] at hdigits ⊢
        rw [int?_cons, if_neg hb, hdigits]
        rfl

/-! ## Words -/

/-- A signed word of so many bits can hold the number. -/
def Fits (bits : Nat) (n : Int) : Prop := -(2 ^ (bits - 1)) ≤ n ∧ n < 2 ^ (bits - 1)

instance (bits : Nat) (n : Int) : Decidable (Fits bits n) := inferInstanceAs (Decidable (_ ∧ _))

/-- **A text is read as a word exactly when it is a numeral and the word can hold the number.** -/
theorem word?_eq_some_iff (bits : Nat) (text : Bytes) (n : Int) :
    word? bits text = some n ↔ ∃ w : Numeral, w.text = text ∧ w.number = n ∧ Fits bits n := by
  have hpow : ((Nat.pow 2 (bits - 1) : Nat) : Int) = 2 ^ (bits - 1) := Int.natCast_pow 2 (bits - 1)
  unfold word? Fits
  rw [hpow, Option.filter_eq_some_iff, int?_eq_some_iff, Bool.and_eq_true, decide_eq_true_eq, decide_eq_true_eq]
  constructor
  · rintro ⟨⟨w, htext, hnumber⟩, hfits⟩
    exact ⟨w, htext, hnumber, hfits⟩
  · rintro ⟨w, htext, hnumber, hfits⟩
    exact ⟨⟨w, htext, hnumber⟩, hfits⟩

/-! ## Digit by digit -/

/-- A number on the way, if a word can hold it. -/
def keep? (bits : Nat) (n : Int) : Option Int := if Fits bits n then some n else none

/-- Reads digits behind a number that has a sign, in words of so many bits. -/
def accumulate? (bits : Nat) (negative : Bool) (n : Int) : Bytes → Option Int
  | [] => some n
  | b :: rest => do
    let tens ← keep? bits (n * 10)
    let next ← keep? bits (if negative then tens - digitValue b else tens + digitValue b)
    accumulate? bits negative next rest

/-- What is found at the front of a text: no numeral, or one that reaches as far as there are digits, with its number
unless a word cannot hold it. -/
inductive Scan
  | noNumeral
  | outOfRange (rest : Bytes)
  | number (n : Int) (rest : Bytes)

/-- Does the text begin with a minus sign? -/
def isNegative (text : Bytes) : Bool := decide (text.head? = some Ascii.dash)

/-- What follows the minus sign, if there is one. -/
def unsigned (text : Bytes) : Bytes := if isNegative text then text.tail else text

/-- Looks for a numeral at the front of a text. -/
def scan (bits : Nat) (text : Bytes) : Scan :=
  let digits := (unsigned text).takeWhile isDigit
  let rest := (unsigned text).dropWhile isDigit
  if digits = [] then .noNumeral
  else
    match accumulate? bits (isNegative text) 0 digits with
    | none => .outOfRange rest
    | some n => .number n rest

/-- The number that was found, if nothing is left behind it. -/
def Scan.whole? : Scan → Option Int
  | number n [] => some n
  | _ => none

/-- A number with a sign. -/
def signed (negative : Bool) (m : Nat) : Int := if negative then -(m : Int) else m

theorem signed_tens (negative : Bool) (m : Nat) : signed negative m * 10 = signed negative (m * 10) := by
  unfold signed
  cases negative <;> simp only [if_true, if_false, Bool.false_eq_true] <;> omega

/-- One digit more. -/
theorem signed_next (negative : Bool) (m d : Nat) :
    (if negative then signed negative (m * 10) - d else signed negative (m * 10) + d)
      = signed negative (m * 10 + d) := by
  unfold signed
  cases negative <;> simp only [if_true, if_false, Bool.false_eq_true] <;> omega

/-- Where a number fits, every smaller one with the same sign does. -/
theorem Fits.of_le {bits : Nat} {negative : Bool} {m n : Nat} (h : Fits bits (signed negative n)) (hle : m ≤ n) :
    Fits bits (signed negative m) := by
  have hpos : (0 : Int) < 2 ^ (bits - 1) := Int.pow_pos (by decide)
  unfold Fits signed at *
  cases negative <;> simp only [if_true, if_false, Bool.false_eq_true] at * <;> omega

theorem fits_zero (bits : Nat) : Fits bits 0 := by
  have hpos : (0 : Int) < 2 ^ (bits - 1) := Int.pow_pos (by decide)
  unfold Fits
  omega

theorem keep?_of_fits {bits : Nat} {n : Int} (h : Fits bits n) : keep? bits n = some n := if_pos h

theorem keep?_of_not_fits {bits : Nat} {n : Int} (h : ¬ Fits bits n) : keep? bits n = none := if_neg h

theorem le_foldl_digits (digits : Bytes) (m : Nat) :
    m ≤ digits.foldl (fun n b => n * 10 + digitValue b) m := by
  induction digits generalizing m with
  | nil => exact Nat.le_refl m
  | cons b rest ih =>
      have hrest := ih (m * 10 + digitValue b)
      rw [List.foldl_cons]
      omega

/-- **Digit by digit the overflow is exact**: a row of digits behind a number is read to its end unless the number at
the end does not fit. -/
theorem accumulate?_eq {bits : Nat} {negative : Bool} {m : Nat} (h : Fits bits (signed negative m))
    (digits : Bytes) :
    accumulate? bits negative (signed negative m) digits
      = keep? bits (signed negative (digits.foldl (fun n b => n * 10 + digitValue b) m)) := by
  induction digits generalizing m with
  | nil => exact (keep?_of_fits h).symm
  | cons b rest ih =>
      rw [accumulate?, signed_tens, List.foldl_cons]
      by_cases hnext : Fits bits (signed negative (m * 10 + digitValue b))
      · have htens : Fits bits (signed negative (m * 10)) := hnext.of_le (Nat.le_add_right _ _)
        rw [keep?_of_fits htens, Option.bind_eq_bind, Option.bind_some, signed_next, keep?_of_fits hnext,
          Option.bind_some]
        exact ih hnext
      · -- the numbers behind one that does not fit are greater
        have hlast : ¬ Fits bits (signed negative
            (rest.foldl (fun n b => n * 10 + digitValue b) (m * 10 + digitValue b))) :=
          fun hlast => hnext (hlast.of_le (le_foldl_digits rest _))
        rw [keep?_of_not_fits hlast]
        by_cases htens : Fits bits (signed negative (m * 10))
        · rw [keep?_of_fits htens, Option.bind_eq_bind, Option.bind_some, signed_next, keep?_of_not_fits hnext]
          rfl
        · rw [keep?_of_not_fits htens]
          rfl

theorem accumulate?_zero (bits : Nat) (negative : Bool) (digits : Bytes) :
    accumulate? bits negative 0 digits = keep? bits (signed negative (value digits)) := by
  have hzero : signed negative 0 = 0 := by cases negative <;> rfl
  have hfits : Fits bits (signed negative 0) := by
    rw [hzero]
    exact fits_zero bits
  have h := accumulate?_eq hfits digits
  rwa [hzero] at h

/-- A text is read behind its sign. -/
theorem int?_eq_map (text : Bytes) : int? text = (nat? (unsigned text)).map (signed (isNegative text)) := by
  cases text with
  | nil => rfl
  | cons b rest =>
      rw [int?_cons]
      unfold unsigned isNegative
      by_cases hdash : b = Ascii.dash
      · simp only [hdash, List.head?_cons, decide_true, if_true, List.tail_cons]
        rfl
      · simp only [List.head?_cons, Option.some.injEq, hdash, decide_false, if_false, Bool.false_eq_true]
        rfl

theorem word?_eq_bind (bits : Nat) (text : Bytes) :
    word? bits text = (nat? (unsigned text)).bind fun m => keep? bits (signed (isNegative text) m) := by
  have hpow : ((Nat.pow 2 (bits - 1) : Nat) : Int) = 2 ^ (bits - 1) := Int.natCast_pow 2 (bits - 1)
  unfold word?
  rw [int?_eq_map, hpow]
  cases nat? (unsigned text) with
  | none => rfl
  | some m =>
      simp only [Option.map_some, Option.filter_some, Bool.and_eq_true, decide_eq_true_eq, Option.bind_some]
      rfl

/-- **Reading a whole text is finding a numeral at its front, within the range, and nothing behind it.** -/
theorem whole?_scan (bits : Nat) (text : Bytes) : (scan bits text).whole? = word? bits text := by
  rw [word?_eq_bind, scan]
  generalize unsigned text = digits
  by_cases hall : ∀ b ∈ digits, isDigit b = true
  · -- nothing is left behind the digits
    rw [List.takeWhile_eq_self_iff.mpr hall, List.dropWhile_eq_nil_iff.mpr hall]
    by_cases hnil : digits = []
    · rw [hnil]
      rfl
    · rw [(nat?_eq_some_iff digits _).mpr ⟨hnil, hall, rfl⟩, Option.bind_some]
      simp only [if_neg hnil, accumulate?_zero]
      cases keep? bits (signed (isNegative text) (value digits)) <;> rfl
  · have hnone : nat? digits = none := by
      cases hread : nat? digits with
      | none => rfl
      | some n => exact absurd ((nat?_eq_some_iff digits n).mp hread).2.1 hall
    have hrest : digits.dropWhile isDigit ≠ [] := fun h => hall (List.dropWhile_eq_nil_iff.mp h)
    obtain ⟨b, rest, hcons⟩ := List.exists_cons_of_ne_nil hrest
    rw [hnone, hcons]
    split
    · rfl
    · split <;> rfl

/-! ## Normal forms -/

/-- A row that does not begin with zero stands for one at least. -/
theorem one_le_value {b : UInt8} (hb : isDigit b = true) (hzero : b ≠ Ascii.zero) (rest : Bytes) :
    1 ≤ value (b :: rest) := by
  have hfirst : digitValue b ≠ 0 := by
    intro h
    apply hzero
    rw [← digit_digitValue hb, h]
    rfl
  have hle : 0 * 10 + digitValue b ≤ value (b :: rest) := le_foldl_digits rest (0 * 10 + digitValue b)
  omega

/-- **A row of digits without a zero in front is the numeral of its number.** -/
theorem ofNat_value {digits : Bytes} (hne : digits ≠ []) (hdigits : ∀ b ∈ digits, isDigit b = true)
    (hfront : digits.head? = some Ascii.zero → digits.length = 1) : ofNat (value digits) = digits := by
  induction digits using List.reverseRecOn with
  | nil => exact absurd rfl hne
  | append_singleton front b ih =>
      have hb : isDigit b = true := hdigits b (List.mem_append_right front List.mem_cons_self)
      have hlast := digitValue_lt hb
      rw [value_append_singleton front hb, ofNat]
      cases front with
      | nil =>
          have hvalue : value [] * 10 + digitValue b = digitValue b := Nat.zero_add _
          rw [hvalue, if_pos hlast, digit_digitValue hb]
          rfl
      | cons c front =>
          -- the digits in front do not begin with zero either, and so the number has ten at least
          have hc : isDigit c = true := hdigits c List.mem_cons_self
          have hzero : c ≠ Ascii.zero := by
            rintro rfl
            have hlength := hfront rfl
            simp only [List.length_append, List.length_cons, List.length_nil] at hlength
            omega
          have hpos := one_le_value hc hzero front
          have hrest : ofNat (value (c :: front)) = c :: front := by
            refine ih (List.cons_ne_nil c front) (fun d hd => hdigits d (List.mem_append_left [b] hd)) ?_
            intro hhead
            exact absurd (Option.some.inj hhead) hzero
          have hdiv : (value (c :: front) * 10 + digitValue b) / 10 = value (c :: front) := by omega
          have hmod : (value (c :: front) * 10 + digitValue b) % 10 = digitValue b := by omega
          rw [if_neg (by omega), hdiv, hmod, hrest, digit_digitValue hb]

/-- A numeral of a number does not begin with zero, unless it is just that. -/
theorem length_ofNat_of_head? {n : Nat} (h : (ofNat n).head? = some Ascii.zero) : (ofNat n).length = 1 := by
  induction n using ofNat.induct with
  | case1 n hn =>
      rw [ofNat, if_pos hn]
      rfl
  | case2 n hn ih =>
      have hhead : (ofNat (n / 10)).head? = some Ascii.zero := by
        obtain ⟨b, front, hcons⟩ := List.exists_cons_of_ne_nil (ofNat_ne_nil (n / 10))
        rwa [ofNat, if_neg hn, hcons, List.cons_append, List.head?_cons, ← List.head?_cons (l := front),
          ← hcons] at h
      -- the front would be a single zero, and the number below ten
      obtain ⟨b, hb⟩ := List.length_eq_one_iff.mp (ih hhead)
      rw [hb, List.head?_cons, Option.some.injEq] at hhead
      have hvalue := value_ofNat (n / 10)
      rw [hb, hhead] at hvalue
      have hzero : value [Ascii.zero] = 0 := rfl
      omega

namespace Numeral

/-- **A normal numeral is what is written of its number.** -/
theorem text_eq_ofInt {w : Numeral} (h : w.IsNormal) : w.text = ofInt w.number := by
  have hdigits : ofNat w.magnitude = w.row.digits := by
    have hvalue := ofNat_value w.digits_ne_nil w.row.isDigit_of_mem fun hhead => by
      rw [w.row.length_digits]
      exact h.front hhead
    rwa [value_eq_ofDigits] at hvalue
  cases hsign : w.negative with
  | false =>
      rw [text, number, hsign, ← hdigits]
      rfl
  | true =>
      have hpos : w.magnitude ≠ 0 := by
        intro hzero
        apply h.sign hsign
        rw [number, hsign, hzero]
        rfl
      obtain ⟨m, hm⟩ := Nat.exists_eq_add_one_of_ne_zero hpos
      rw [text, number, hsign, ← hdigits, hm]
      rfl

/-- Every number has a normal numeral. -/
theorem exists_isNormal (n : Int) : ∃ w : Numeral, w.IsNormal ∧ w.number = n ∧ w.text = ofInt n := by
  cases n with
  | ofNat n =>
      have hnumber := number_ofDigits false (ofNat_ne_nil n) fun b => isDigit_of_mem_ofNat
      rw [value_ofNat] at hnumber
      exact ⟨_, ⟨length_ofNat_of_head?, fun hsign => absurd hsign Bool.false_ne_true⟩, hnumber, rfl⟩
  | negSucc n =>
      have hnumber := number_ofDigits true (ofNat_ne_nil (n + 1)) fun b => isDigit_of_mem_ofNat
      rw [value_ofNat] at hnumber
      refine ⟨_, ⟨length_ofNat_of_head?, fun _ => ?_⟩, hnumber, rfl⟩
      rw [hnumber, if_pos rfl]
      omega

end Numeral

end Decimal

/-! ## Receipts -/

/-- The text that is signed for a receipt shows two numerals as its counts. -/
def Receipt.Shows (r : Receipt) (events bytes : Decimal.Numeral) : Prop :=
  ∀ nonce : Nonce, r.canonical nonce
    = r.tokenId ++ Ascii.bar :: r.sourceIp ++ Ascii.bar :: events.text ++ Ascii.bar :: bytes.text
      ++ Ascii.bar :: r.time.canonicalText ++ Ascii.bar :: Hex.encode nonce.val

/-- Normal numerals of the counts are what a receipt shows. -/
theorem Receipt.shows_of_isNormal {r : Receipt} {events bytes : Decimal.Numeral} (hevents : events.IsNormal)
    (hbytes : bytes.IsNormal) (hcount : events.number = r.eventCount) (hsize : bytes.number = r.byteCount) :
    r.Shows events bytes := by
  intro nonce
  rw [canonical, Decimal.Numeral.text_eq_ofInt hevents, Decimal.Numeral.text_eq_ofInt hbytes, hcount, hsize]

namespace Command

open Decimal Effect

/-! ## Arguments -/

/-- **An argument is read digit by digit**: it is a numeral at the front, within the range, with nothing behind it, or
it is malformed. -/
theorem perform_readInteger_scan (bits : Nat) (f : Flag) (text : Bytes) (s : System) :
    (readInteger bits f text).perform s =
      match (scan bits text).whole? with
      | some n => (.ok n, s)
      | none => (.error (Cause.malformedInteger f.spelling text).failure, s) := by
  rw [whole?_scan]
  unfold readInteger
  cases word? bits text <;> rfl

/-- The integers that arguments are read as. -/
theorem perform_readInteger_ok_iff (bits : Nat) (f : Flag) (text : Bytes) (n : Int) (s : System) :
    (readInteger bits f text).perform s = (.ok n, s)
      ↔ ∃ w : Numeral, w.text = text ∧ w.number = n ∧ Fits bits n := by
  rw [perform_readInteger_scan, whole?_scan, ← word?_eq_some_iff]
  cases word? bits text with
  | none => simp only [Prod.mk.injEq, reduceCtorEq, false_and]
  | some m => simp only [Prod.mk.injEq, Except.ok.injEq, and_true, Option.some.injEq]

/-- A text that is no numeral of a number in the range is a fault of the argument. -/
theorem perform_readInteger_of_foreign (bits : Nat) (f : Flag) {text : Bytes}
    (h : ¬ ∃ w : Numeral, w.text = text ∧ Fits bits w.number) (s : System) :
    (readInteger bits f text).perform s = (.error (Cause.malformedInteger f.spelling text).failure, s) := by
  rw [perform_readInteger_scan, whole?_scan]
  cases hread : word? bits text with
  | none => rfl
  | some n =>
      obtain ⟨w, htext, hnumber, hfits⟩ := (word?_eq_some_iff bits text n).mp hread
      rw [← hnumber] at hfits
      exact absurd ⟨w, htext, hfits⟩ h

/-- What an argument for a count is read as before a receipt is made. -/
theorem word?_of_integer? {bits : Nat} {f : Flag} {text : Bytes} {n : Int} (h : integer? bits f text = .ok n) :
    word? bits text = some n := by
  unfold integer? at h
  cases hread : word? bits text with
  | none =>
      rw [hread] at h
      cases h
  | some m =>
      rw [hread] at h
      rw [Except.ok.inj h]

/-- **A run that signs a receipt signs one of the counts that were written**, and every other run of the command fails
or describes the commands, with the system as it was. -/
theorem exists_receipt_or_unchanged (i : Invocation) (o : Options) (s : System) :
    (∃ f, (signIngestion.run i o).perform s = (.error f, s))
      ∨ (signIngestion.run i o).perform s = (.ok .usage, s)
      ∨ ∃ (r : Receipt) (events bytes : Bytes),
        (signIngestion.run i o).perform s = (openSigner i >>= fun signer => (Request.receipt r).answer signer).perform s
          ∧ o.value? .eventCount = some events ∧ word? 32 events = some r.eventCount
          ∧ o.value? .byteCount = some bytes ∧ word? 64 bytes = some r.byteCount := by
  rw [perform_run, decision?]
  split
  · next tokenId sourceIp events bytes _ _ hevents hbytes =>
      rcases hcount : integer? 32 .eventCount events with f | count
      · exact .inl ⟨f, rfl⟩
      rcases hsize : integer? 64 .byteCount bytes with f | size
      · exact .inl ⟨f, rfl⟩
      rcases receiptTime? s.now o with f | time
      · exact .inl ⟨f, rfl⟩
      · exact .inr (.inr ⟨⟨tokenId, sourceIp, count, size, time⟩, events, bytes, rfl, hevents,
          word?_of_integer? hcount, hbytes, word?_of_integer? hsize⟩)
  · exact .inr (.inl rfl)

/-- **Integer arguments follow the grammar, and receipts show normal forms.** For every size of signed words an
argument is read as a number exactly when it is a numeral of it, from its first byte to its last, and a word can hold
it; read digit by digit in such words it comes to the same; and every other argument is a fault of validation with
the code for malformed integers, which quotes flag and text. What is written of a number in the range is read as that
number. A number has one normal numeral. A run of the command fails or describes the commands, with the system as it
was, or it signs a receipt, and then it has been given two numerals within 32 and 64 bits and signs a text that shows
the normal ones of the same numbers. -/
theorem integer_arguments_follow_grammar (s : System) :
    (∀ bits f text n, (readInteger bits f text).perform s = (.ok n, s)
        ↔ ∃ w : Numeral, w.text = text ∧ w.number = n ∧ Fits bits n)
      ∧ (∀ bits f text, (readInteger bits f text).perform s =
        match (scan bits text).whole? with
        | some n => (.ok n, s)
        | none => (.error (Cause.malformedInteger f.spelling text).failure, s))
      ∧ (∀ bits f text, (¬ ∃ w : Numeral, w.text = text ∧ Fits bits w.number) →
        ∃ fault, (readInteger bits f text).perform s = (.error (.fault fault), s)
          ∧ fault = (Cause.malformedInteger f.spelling text).fault
          ∧ fault.domain = .validation ∧ fault.code = 0x402)
      ∧ (∀ bits f n, Fits bits n → (readInteger bits f (ofInt n)).perform s = (.ok n, s))
      ∧ (∀ v w : Numeral, v.IsNormal → w.IsNormal → v.number = w.number → v.text = w.text)
      ∧ ∀ i o, (∃ f, (signIngestion.run i o).perform s = (.error f, s))
        ∨ (signIngestion.run i o).perform s = (.ok .usage, s)
        ∨ ∃ (r : Receipt) (events bytes events' bytes' : Numeral),
          (signIngestion.run i o).perform s
              = (openSigner i >>= fun signer => (Request.receipt r).answer signer).perform s
            ∧ o.value? .eventCount = some events.text ∧ Fits 32 events.number
            ∧ o.value? .byteCount = some bytes.text ∧ Fits 64 bytes.number
            ∧ events'.IsNormal ∧ events'.number = events.number
            ∧ bytes'.IsNormal ∧ bytes'.number = bytes.number
            ∧ r.Shows events' bytes' := by
  refine ⟨?_, ?_, ?_, ?_, ?_, ?_⟩
  · intro bits f text n
    exact perform_readInteger_ok_iff bits f text n s
  · intro bits f text
    exact perform_readInteger_scan bits f text s
  · intro bits f text hforeign
    exact ⟨_, perform_readInteger_of_foreign bits f hforeign s, rfl, rfl, rfl⟩
  · intro bits f n hfits
    obtain ⟨w, -, hnumber, htext⟩ := Numeral.exists_isNormal n
    exact (perform_readInteger_ok_iff bits f (ofInt n) n s).mpr ⟨w, htext, hnumber, hfits⟩
  · intro v w hv hw hsame
    rw [Numeral.text_eq_ofInt hv, Numeral.text_eq_ofInt hw, hsame]
  · intro i o
    rcases exists_receipt_or_unchanged i o s with
      hfailed | husage | ⟨r, count, size, hrun, hcount, hevents, hsize, hbytes⟩
    · exact .inl hfailed
    · exact .inr (.inl husage)
    · obtain ⟨events, rfl, hnumber, hfits⟩ := (word?_eq_some_iff 32 count _).mp hevents
      obtain ⟨bytes, rfl, hnumber', hfits'⟩ := (word?_eq_some_iff 64 size _).mp hbytes
      obtain ⟨events', hnormal, hsame, -⟩ := Numeral.exists_isNormal r.eventCount
      obtain ⟨bytes', hnormal', hsame', -⟩ := Numeral.exists_isNormal r.byteCount
      refine .inr (.inr ⟨r, events, bytes, events', bytes', hrun, hcount, ?_, hsize, ?_, hnormal, ?_, hnormal', ?_,
        Receipt.shows_of_isNormal hnormal hnormal' hsame hsame'⟩)
      · rwa [hnumber]
      · rwa [hnumber']
      · rw [hsame, hnumber]
      · rw [hsame', hnumber']

/-- The least word of 32 bits is read behind zeros, the number behind the greatest one is not, and neither is a number
with a plus sign. -/
theorem integer_arguments_follow_grammar_limits :
    (readInteger 32 .eventCount (Bytes.ascii "-002147483648")).perform {} = (.ok (-2147483648), {})
      ∧ (∃ fault, (readInteger 32 .eventCount (Bytes.ascii "2147483648")).perform {} = (.error (.fault fault), {})
        ∧ fault.domain = .validation ∧ fault.code = 0x402)
      ∧ (readInteger 64 .byteCount (Bytes.ascii "+1")).perform {}
        = (.error (Cause.malformedInteger (Bytes.ascii "--bytes=") (Bytes.ascii "+1")).failure, {}) := by
  obtain ⟨hread, hscan, hforeign, -⟩ := integer_arguments_follow_grammar {}
  refine ⟨?_, ?_, ?_⟩
  · rw [hread]
    exact ⟨.ofDigits true (Bytes.ascii "002147483648") (by decide) (List.all_eq_true.mp (by decide)), by decide,
      by decide, by decide⟩
  · obtain ⟨fault, hperform, -, hdomain, hcode⟩ := hforeign 32 .eventCount (Bytes.ascii "2147483648") <| by
      rintro ⟨w, htext, hfits⟩
      have hnumber := (int?_eq_some_iff _ _).mpr ⟨w, htext, rfl⟩
      have hvalue : int? (Bytes.ascii "2147483648") = some 2147483648 := by decide
      rw [hvalue, Option.some.injEq] at hnumber
      rw [← hnumber] at hfits
      exact absurd hfits (by decide)
    exact ⟨fault, hperform, hdomain, hcode⟩
  · rw [hscan]
    rfl

end Command

end SignedAudit
