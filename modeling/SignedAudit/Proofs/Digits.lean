import Mathlib.Algebra.Group.Int.Defs
import Mathlib.Algebra.GroupWithZero.Nat
import SignedAudit.Decimal
import SignedAudit.Signature

namespace SignedAudit

/-! # Digits stand for one number each

A numeral of fixed width is read back by `Decimal.value`, so that different numbers below the power of ten
have different numerals; two hexadecimal digits give back their byte, so that different bytes have
different digits. Digits are no delimiters: neither a bar nor a letter above `f` is among them. -/

/-! ## Bytes one by one -/

/-- What is so of the bytes of the numbers below a bound is so of every byte below it. -/
theorem Bytes.forall_lt {motive : UInt8 → Prop} {bound : Nat} (h : ∀ n, n < bound → motive (UInt8.ofNat n))
    (b : UInt8) (hb : b.toNat < bound) : motive b := by
  have hnumber := h b.toNat hb
  rwa [UInt8.ofNat_toNat] at hnumber

/-- What is so of the bytes of all numbers below 256 is so of every byte. -/
theorem Bytes.forall_byte {motive : UInt8 → Prop} (h : ∀ n, n < 256 → motive (UInt8.ofNat n)) (b : UInt8) :
    motive b :=
  Bytes.forall_lt h b b.toNat_lt

/-! ## Decimal numerals -/

namespace Decimal

theorem toNat_digit {n : Nat} (h : n < 10) : (digit n).toNat = 48 + n := by
  have hn : (UInt8.ofNat n).toNat = n := UInt8.toNat_ofNat_of_lt (by simp only [UInt8.size]; omega)
  rw [digit, UInt8.toNat_add, hn]
  show (48 + n) % 256 = 48 + n
  omega

theorem isDigit_iff (b : UInt8) : isDigit b = true ↔ 48 ≤ b.toNat ∧ b.toNat ≤ 57 := by
  rw [isDigit, Bool.and_eq_true, decide_eq_true_eq, decide_eq_true_eq, UInt8.le_iff_toNat_le,
    UInt8.le_iff_toNat_le]
  rfl

theorem isDigit_digit {n : Nat} (h : n < 10) : isDigit (digit n) = true := by
  rw [isDigit_iff, toNat_digit h]
  omega

/-- One more digit on the right is ten times the number and the digit. -/
theorem value_concat (digits : Bytes) {n : Nat} (h : n < 10) :
    value (digits ++ [digit n]) = value digits * 10 + n := by
  rw [value, List.foldl_append, List.foldl_cons, List.foldl_nil, toNat_digit h]
  show value digits * 10 + (48 + n - 48) = value digits * 10 + n
  omega

/-- The last digits of a number stand for what is left of it below the power of ten. -/
theorem value_fixed (width n : Nat) : value (fixed width n) = n % 10 ^ width := by
  induction width generalizing n with
  | zero => rw [Nat.pow_zero, Nat.mod_one]; rfl
  | succ width ih =>
      -- the digits in front stand for the tenth part, as far as it is below the smaller power
      rw [fixed, value_concat _ (Nat.mod_lt _ (by omega)), ih, Nat.pow_succ, Nat.mul_comm (10 ^ width),
        Nat.mod_mul]
      omega

/-- **Numerals of one width keep numbers apart** that have no more digits than that. -/
theorem fixed_inj {width m n : Nat} (hm : m < 10 ^ width) (hn : n < 10 ^ width)
    (h : fixed width m = fixed width n) : m = n := by
  have hv : value (fixed width m) = value (fixed width n) := by rw [h]
  rwa [value_fixed, value_fixed, Nat.mod_eq_of_lt hm, Nat.mod_eq_of_lt hn] at hv

theorem isDigit_of_mem_fixed {width n : Nat} {b : UInt8} (h : b ∈ fixed width n) :
    isDigit b = true := by
  induction width generalizing n with
  | zero => cases h
  | succ width ih =>
      rcases List.mem_append.mp h with h | h
      · exact ih h
      · rw [List.mem_singleton.mp h]
        exact isDigit_digit (Nat.mod_lt _ (by omega))

theorem isDigit_of_mem_ofNat {n : Nat} {b : UInt8} (h : b ∈ ofNat n) : isDigit b = true := by
  induction n using ofNat.induct with
  | case1 n hn =>
      rw [ofNat, if_pos hn] at h
      rw [List.mem_singleton.mp h]
      exact isDigit_digit hn
  | case2 n hn ih =>
      rw [ofNat, if_neg hn] at h
      rcases List.mem_append.mp h with h | h
      · exact ih h
      · rw [List.mem_singleton.mp h]
        exact isDigit_digit (Nat.mod_lt _ (by omega))

theorem ofNat_ne_nil (n : Nat) : ofNat n ≠ [] := by
  rw [ofNat]
  split <;> simp

/-- **A numeral stands for its number.** -/
theorem value_ofNat (n : Nat) : value (ofNat n) = n := by
  induction n using ofNat.induct with
  | case1 n hn =>
      have hone := value_concat [] hn
      rw [ofNat, if_pos hn]
      simpa [value] using hone
  | case2 n hn ih =>
      rw [ofNat, if_neg hn, value_concat _ (Nat.mod_lt _ (by omega)), ih]
      omega

theorem nat?_ofNat (n : Nat) : nat? (ofNat n) = some n := by
  have hdigits : (ofNat n).all isDigit = true := List.all_eq_true.mpr fun _ => isDigit_of_mem_ofNat
  rw [nat?, if_pos ⟨ofNat_ne_nil n, hdigits⟩, value_ofNat]

/-- **An integer is read back from its numeral.** -/
theorem int?_ofInt (n : Int) : int? (ofInt n) = some n := by
  cases n with
  | ofNat n =>
      obtain ⟨b, rest, hnumeral⟩ := List.exists_cons_of_ne_nil (ofNat_ne_nil n)
      have hb : b ≠ Ascii.dash := by
        rintro rfl
        have hdash : isDigit Ascii.dash = true :=
          isDigit_of_mem_ofNat (n := n) (by simp [hnumeral])
        exact absurd hdash (by decide)
      have hnat := nat?_ofNat n
      rw [hnumeral] at hnat
      rw [ofInt, hnumeral, int?, if_neg hb, hnat]
      rfl
  | negSucc n =>
      rw [ofInt, int?, if_pos rfl, nat?_ofNat]
      rfl

theorem ofInt_injective : Function.Injective ofInt := by
  intro m n h
  have hread : int? (ofInt m) = int? (ofInt n) := by rw [h]
  rw [int?_ofInt, int?_ofInt] at hread
  exact Option.some.inj hread

/-- A number below a power of ten has no more digits than the exponent says. -/
theorem length_ofNat_le {width n : Nat} (h : n < 10 ^ (width + 1)) : (ofNat n).length ≤ width + 1 := by
  induction width generalizing n with
  | zero =>
      have hn : n < 10 := by omega
      rw [ofNat, if_pos hn]
      exact Nat.le_refl 1
  | succ width ih =>
      rw [ofNat]
      split
      · simp only [List.length_singleton]
        omega
      · have hrest := ih (n := n / 10) (by rw [Nat.pow_succ] at h; omega)
        rw [List.length_append, List.length_singleton]
        omega

theorem length_ofInt_le {width : Nat} {n : Int} (h : n.natAbs < 10 ^ (width + 1)) :
    (ofInt n).length ≤ width + 2 := by
  cases n with
  | ofNat n =>
      have hn : (ofNat n).length ≤ width + 1 := length_ofNat_le h
      exact Nat.le_succ_of_le hn
  | negSucc n =>
      have hn : (ofNat (n + 1)).length ≤ width + 1 := length_ofNat_le h
      exact Nat.succ_le_succ hn

/-- An integer numeral holds digits, and a dash at most. -/
theorem mem_ofInt {n : Int} {b : UInt8} (h : b ∈ ofInt n) : b = Ascii.dash ∨ isDigit b = true := by
  cases n with
  | ofNat n => exact Or.inr (isDigit_of_mem_ofNat h)
  | negSucc n => exact (List.mem_cons.mp h).imp id isDigit_of_mem_ofNat

theorem bar_notMem_ofInt (n : Int) : Ascii.bar ∉ ofInt n := by
  intro h
  rcases mem_ofInt h with h | h <;> revert h <;> decide

end Decimal

/-! ## Hexadecimal digits -/

namespace Hex

/-- The number of a hexadecimal digit, letters in either case. -/
def digitValue? (b : UInt8) : Option Nat :=
  if 48 ≤ b.toNat ∧ b.toNat ≤ 57 then some (b.toNat - 48)
  else if 97 ≤ b.toNat ∧ b.toNat ≤ 102 then some (b.toNat - 87)
  else if 65 ≤ b.toNat ∧ b.toNat ≤ 70 then some (b.toNat - 55)
  else none

theorem digitValue?_digit {n : UInt8} (h : n.toNat < 16) : digitValue? (digit n) = some n.toNat :=
  Bytes.forall_lt (motive := fun b => digitValue? (digit b) = some b.toNat) (by decide) n h

theorem isDigit_digit {n : UInt8} (h : n.toNat < 16) : isDigit (digit n) = true :=
  Bytes.forall_lt (motive := fun b => isDigit (digit b) = true) (by decide) n h

theorem digit_inj {m n : UInt8} (hm : m.toNat < 16) (hn : n.toNat < 16) (h : digit m = digit n) :
    m = n := by
  have hv : digitValue? (digit m) = digitValue? (digit n) := by rw [h]
  rw [digitValue?_digit hm, digitValue?_digit hn, Option.some.injEq] at hv
  exact UInt8.toNat_inj.mp hv

theorem toNat_high (b : UInt8) : (b >>> 4).toNat = b.toNat / 16 := by
  rw [UInt8.toNat_shiftRight]
  exact Nat.shiftRight_eq_div_pow _ _

theorem toNat_low (b : UInt8) : (b &&& 15).toNat = b.toNat % 16 := by
  rw [UInt8.toNat_and]
  exact Nat.and_two_pow_sub_one_eq_mod _ 4

theorem toNat_high_lt (b : UInt8) : (b >>> 4).toNat < 16 := by
  have hb := b.toNat_lt
  rw [toNat_high]
  omega

theorem toNat_low_lt (b : UInt8) : (b &&& 15).toNat < 16 := by
  rw [toNat_low]
  omega

theorem toNat_nibbles (b : UInt8) : 16 * (b >>> 4).toNat + (b &&& 15).toNat = b.toNat := by
  rw [toNat_high, toNat_low, Nat.div_add_mod]

/-- Two nibbles make up their byte. -/
theorem byte_inj {a b : UInt8} (hhigh : a >>> 4 = b >>> 4) (hlow : a &&& 15 = b &&& 15) : a = b := by
  apply UInt8.toNat_inj.mp
  rw [← toNat_nibbles a, ← toNat_nibbles b, hhigh, hlow]

/-- **Hexadecimal text keeps byte strings apart.** -/
theorem encode_injective : Function.Injective encode := by
  intro a b h
  induction a generalizing b with
  | nil =>
      cases b with
      | nil => rfl
      | cons b rest => simp only [encode_nil, encode_cons, reduceCtorEq] at h
  | cons a as ih =>
      cases b with
      | nil => simp only [encode_nil, encode_cons, reduceCtorEq] at h
      | cons b bs =>
          simp only [encode_cons, List.cons.injEq] at h
          obtain ⟨hhigh, hlow, hrest⟩ := h
          have hab : a = b :=
            byte_inj (digit_inj (toNat_high_lt a) (toNat_high_lt b) hhigh)
              (digit_inj (toNat_low_lt a) (toNat_low_lt b) hlow)
          rw [hab, ih hrest]

theorem isDigit_of_mem_encode {bytes : Bytes} {b : UInt8} (h : b ∈ encode bytes) :
    isDigit b = true := by
  induction bytes with
  | nil => cases h
  | cons a as ih =>
      rw [encode_cons] at h
      rcases List.mem_cons.mp h with rfl | h
      · exact isDigit_digit (toNat_high_lt a)
      · rcases List.mem_cons.mp h with rfl | h
        · exact isDigit_digit (toNat_low_lt a)
        · exact ih h

theorem notMem_encode {b : UInt8} (h : isDigit b = false) (bytes : Bytes) : b ∉ encode bytes := by
  intro hmem
  rw [isDigit_of_mem_encode hmem] at h
  cases h

theorem bar_notMem_encode (bytes : Bytes) : Ascii.bar ∉ encode bytes :=
  notMem_encode (by decide) bytes

theorem zero_notMem_encode (bytes : Bytes) : 0 ∉ encode bytes := notMem_encode (by decide) bytes

end Hex

/-! ## Signatures -/

namespace Signature

/-- **A signature stands for one digest.** -/
theorem ofDigest_injective : Function.Injective ofDigest := by
  intro d e h
  exact Subtype.ext (Hex.encode_injective h)

/-- **Every digest makes a well-formed signature.** -/
theorem isWellFormed_ofDigest (d : Digest) : isWellFormed (ofDigest d) = true := by
  rw [isWellFormed, length_ofDigest, beq_self_eq_true, Bool.true_and, List.all_eq_true]
  intro b hb
  exact Hex.isDigit_of_mem_encode hb

end Signature

end SignedAudit
