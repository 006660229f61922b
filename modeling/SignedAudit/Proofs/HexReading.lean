import Mathlib.Logic.ExistsUnique
import SignedAudit.Proofs.Digits

namespace SignedAudit

/-! # Reading hexadecimal text

A reader takes two digits for each byte, letters in lower case only, and turns down everything else. It reads what
is written and nothing else, so that the rows of `2 * n` digits are exactly the written strings of `n` bytes, each
of one string only. A well-formed signature is such a row, for the length of a digest. -/

namespace Hex

/-- The nibble that a digit stands for. -/
def nibble (b : UInt8) : UInt8 := if b ≤ Ascii.nine then b - Ascii.zero else b - Ascii.lowerA + 10

/-- The byte of two nibbles. -/
def joined (high low : UInt8) : UInt8 := UInt8.ofNat (16 * high.toNat + low.toNat)

/-- Reads a whole text as the digits of a byte string. -/
def decode? : Bytes → Option Bytes
  | [] => some []
  | [_] => none
  | high :: low :: rest =>
    if isDigit high && isDigit low then (decode? rest).map (joined (nibble high) (nibble low) :: ·) else none

/-! ## One byte -/

theorem nibble_digit {n : UInt8} (h : n.toNat < 16) : nibble (digit n) = n :=
  Bytes.forall_lt (motive := fun n => nibble (digit n) = n) (by decide) n h

theorem digit_nibble {b : UInt8} (h : isDigit b = true) : digit (nibble b) = b :=
  Bytes.forall_byte (motive := fun b => isDigit b = true → digit (nibble b) = b) (by decide +kernel) b h

theorem toNat_nibble_lt {b : UInt8} (h : isDigit b = true) : (nibble b).toNat < 16 :=
  Bytes.forall_byte (motive := fun b => isDigit b = true → (nibble b).toNat < 16) (by decide +kernel) b h

theorem joined_nibbles (b : UInt8) : joined (b >>> 4) (b &&& 15) = b := by
  rw [joined, toNat_nibbles, UInt8.ofNat_toNat]

section

variable {high low : UInt8} (hhigh : high.toNat < 16) (hlow : low.toNat < 16)

include hhigh hlow

theorem toNat_joined : (joined high low).toNat = 16 * high.toNat + low.toNat := by
  apply UInt8.toNat_ofNat_of_lt
  simp only [UInt8.size]
  omega

theorem high_joined : joined high low >>> 4 = high := by
  apply UInt8.toNat_inj.mp
  rw [toNat_high, toNat_joined hhigh hlow]
  omega

theorem low_joined : joined high low &&& 15 = low := by
  apply UInt8.toNat_inj.mp
  rw [toNat_low, toNat_joined hhigh hlow]
  omega

end

/-! ## Whole texts -/

/-- **What is written is read back.** -/
theorem decode?_encode (bytes : Bytes) : decode? (encode bytes) = some bytes := by
  induction bytes with
  | nil => rfl
  | cons b bytes ih =>
      rw [encode_cons, decode?, isDigit_digit (toNat_high_lt b), isDigit_digit (toNat_low_lt b), ih,
        nibble_digit (toNat_high_lt b), nibble_digit (toNat_low_lt b), joined_nibbles]
      rfl

/-- **What is read is what is written**: there is no second way to write a byte string. -/
theorem encode_of_decode? {text bytes : Bytes} (h : decode? text = some bytes) : encode bytes = text := by
  induction text using decode?.induct generalizing bytes with
  | case1 =>
      obtain rfl := Option.some.inj h
      rfl
  | case2 b => cases h
  | case3 high low rest hdigits ih =>
      rw [decode?, if_pos hdigits] at h
      obtain ⟨tail, htail, rfl⟩ := Option.map_eq_some_iff.mp h
      obtain ⟨hhigh, hlow⟩ := Bool.and_eq_true_iff.mp hdigits
      have hhigh' := toNat_nibble_lt hhigh
      have hlow' := toNat_nibble_lt hlow
      rw [encode_cons, high_joined hhigh' hlow', low_joined hhigh' hlow', digit_nibble hhigh, digit_nibble hlow,
        ih htail]
  | case4 high low rest hdigits =>
      rw [decode?, if_neg hdigits] at h
      cases h

theorem all_isDigit_cons_cons (high low : UInt8) (rest : Bytes) :
    (high :: low :: rest).all isDigit = ((isDigit high && isDigit low) && rest.all isDigit) := by
  rw [List.all_cons, List.all_cons, Bool.and_assoc]

/-- A text is read if it is made of digits and their number is even. -/
theorem isSome_decode? (text : Bytes) : (decode? text).isSome = (text.length % 2 == 0 && text.all isDigit) := by
  induction text using decode?.induct with
  | case1 => rfl
  | case2 b => rfl
  | case3 high low rest hdigits ih =>
      rw [decode?, if_pos hdigits, Option.isSome_map, ih, all_isDigit_cons_cons, hdigits, Bool.true_and,
        List.length_cons, List.length_cons, Nat.add_assoc, Nat.add_mod_right]
  | case4 high low rest hdigits =>
      rw [decode?, if_neg hdigits, all_isDigit_cons_cons, Bool.eq_false_iff.mpr hdigits, Bool.false_and,
        Bool.and_false]
      rfl

theorem decode?_eq_some_iff {text bytes : Bytes} : decode? text = some bytes ↔ encode bytes = text := by
  refine ⟨encode_of_decode?, ?_⟩
  rintro rfl
  exact decode?_encode bytes

/-- **The rows of `2 * n` digits are the written strings of `n` bytes**, each of one of them. -/
theorem existsUnique_encode_eq_iff (n : Nat) (text : Bytes) :
    (∃! bytes : FixedBytes n, encode bytes.val = text) ↔ text.length = 2 * n ∧ text.all isDigit = true := by
  constructor
  · rintro ⟨bytes, htext, -⟩
    have hsome : (decode? text).isSome = true := by
      rw [decode?_eq_some_iff.mpr htext]
      rfl
    rw [isSome_decode?, Bool.and_eq_true] at hsome
    rw [← htext, length_encode, bytes.property, htext]
    exact ⟨rfl, hsome.2⟩
  · rintro ⟨hlength, hdigits⟩
    have hsome : (decode? text).isSome = true := by
      rw [isSome_decode?, hlength, hdigits, Nat.mul_mod_right]
      rfl
    obtain ⟨bytes, hbytes⟩ := Option.isSome_iff_exists.mp hsome
    have htext := encode_of_decode? hbytes
    have hn : bytes.length = n := by
      rw [← htext, length_encode] at hlength
      omega
    refine ⟨⟨bytes, hn⟩, htext, fun other hother => Subtype.ext ?_⟩
    exact Option.some.inj ((decode?_eq_some_iff.mpr hother).symm.trans hbytes)

/-- Capitals are not read, nor is an odd digit. -/
example : decode? (Bytes.ascii "0aff") = some [10, 255] ∧ decode? (Bytes.ascii "0AFF") = none
    ∧ decode? (Bytes.ascii "0af") = none := by decide

end Hex

namespace Signature

/-- **The well-formed signatures are the written digests**, one for each. Hexadecimal text keeps byte strings of all
lengths apart and has two digits for each byte, and a candidate is well-formed if and only if it is the text of
exactly one string of 32 bytes. -/
theorem isWellFormed_iff_existsUnique_encode :
    Function.Injective Hex.encode
      ∧ (∀ bytes, (Hex.encode bytes).length = 2 * bytes.length)
      ∧ ∀ candidate, isWellFormed candidate = true ↔ ∃! bytes : FixedBytes 32, Hex.encode bytes.val = candidate := by
  refine ⟨Hex.encode_injective, Hex.length_encode, fun candidate => ?_⟩
  have hrow : isWellFormed candidate = true ↔ candidate.length = 2 * 32 ∧ candidate.all Hex.isDigit = true := by
    rw [isWellFormed, Bool.and_eq_true, beq_iff_eq, length]
  rw [hrow, Hex.existsUnique_encode_eq_iff]

end Signature

end SignedAudit
