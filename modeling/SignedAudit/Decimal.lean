import SignedAudit.Bytes

namespace SignedAudit.Decimal

/-! # Decimal numerals

Numerals over ASCII digits: without leading zeros (`ofNat`, `ofInt`), of a fixed width (`fixed`), and
read back (`value`, `int?`). An integer numeral is an optional minus sign followed by one or more
digits; leading zeros are allowed, and so is `-0`. -/

/-- The digit of a number below ten. -/
def digit (n : Nat) : UInt8 := Ascii.zero + UInt8.ofNat n

/-- Is the byte one of `0` to `9`? -/
def isDigit (b : UInt8) : Bool := Ascii.zero ≤ b && b ≤ Ascii.nine

/-- The numeral of a natural number, without leading zeros. -/
def ofNat (n : Nat) : Bytes :=
  if n < 10 then [digit n] else ofNat (n / 10) ++ [digit (n % 10)]

/-- The numeral of an integer: a minus sign before the numeral of the absolute value if it is
negative. -/
def ofInt : Int → Bytes
  | .ofNat n => ofNat n
  | .negSucc n => Ascii.dash :: ofNat (n + 1)

/-- The last `width` digits of a natural number, leading zeros included. -/
def fixed : (width : Nat) → Nat → Bytes
  | 0, _ => []
  | width + 1, n => fixed width (n / 10) ++ [digit (n % 10)]

@[simp] theorem length_fixed (width n : Nat) : (fixed width n).length = width := by
  induction width generalizing n with
  | zero => rfl
  | succ w ih => simp [fixed, ih]

/-- The number a row of digits stands for. -/
def value (digits : Bytes) : Nat := digits.foldl (fun n b => n * 10 + (b.toNat - Ascii.zero.toNat)) 0

/-- Reads one or more digits and nothing else. -/
def nat? (text : Bytes) : Option Nat :=
  if text ≠ [] ∧ text.all isDigit then some (value text) else none

/-- Reads a whole text as an integer numeral. -/
def int? : Bytes → Option Int
  | [] => none
  | b :: rest =>
    if b = Ascii.dash then (nat? rest).map fun n => -(n : Int)
    else (nat? (b :: rest)).map fun n => (n : Int)

/-- Reads a whole text as an integer numeral of a two's complement word of `bits` bits. -/
def word? (bits : Nat) (text : Bytes) : Option Int :=
  (int? text).filter fun n => -(Nat.pow 2 (bits - 1) : Int) ≤ n && n < (Nat.pow 2 (bits - 1) : Int)

/-- A text filled up on the left with zero digits to a width. -/
def padLeft (width : Nat) (text : Bytes) : Bytes :=
  List.replicate (width - text.length) Ascii.zero ++ text

end SignedAudit.Decimal
