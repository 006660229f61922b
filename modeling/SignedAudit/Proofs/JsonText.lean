import SignedAudit.Json
import SignedAudit.Proofs.Digits
import SignedAudit.Proofs.Framing

namespace SignedAudit.Json

/-! # Strings and objects in JSON text

Every byte of a string is written in one of three forms: as itself, as a letter behind a backslash, or as its
code in four hexadecimal digits. The forms can be told apart and read back, and none begins with a quote.
So a written string shows by itself where it ends and which text it stands for; and so does an object,
as far as its members do. -/

/-! ## One byte of a string -/

/-- The byte that a letter behind a backslash stands for. -/
def shortForm? (letter : UInt8) : Option UInt8 :=
  if letter = Ascii.backslash ∨ letter = Ascii.quote ∨ letter = Ascii.slash then some letter
  else if [letter] = Bytes.ascii "b" then some Ascii.backspace
  else if [letter] = Bytes.ascii "f" then some Ascii.formFeed
  else if [letter] = Bytes.ascii "n" then some Ascii.newline
  else if [letter] = Bytes.ascii "r" then some Ascii.carriageReturn
  else if [letter] = Bytes.ascii "t" then some Ascii.tab
  else none

/-- The letter in front of a code. -/
abbrev codeLetter : UInt8 := 117

/-- Reads a code of two zeros and two hexadecimal digits: the byte, and what follows. -/
def readCode? : Bytes → Option (UInt8 × Bytes)
  | first :: second :: high :: low :: rest =>
    if first = Ascii.zero ∧ second = Ascii.zero then do
      let h ← Hex.digitValue? high
      let l ← Hex.digitValue? low
      return (UInt8.ofNat (16 * h + l), rest)
    else none
  | _ => none

/-- Reads one byte of a string: the byte, and what follows. -/
def readByte? : Bytes → Option (UInt8 × Bytes)
  | [] => none
  | [b] => if b = Ascii.backslash ∨ b = Ascii.quote ∨ b < Ascii.space then none else some (b, [])
  | b :: letter :: rest =>
    if b = Ascii.backslash then
      if letter = codeLetter then readCode? rest else (shortForm? letter).map (·, rest)
    else if b = Ascii.quote ∨ b < Ascii.space then none
    else some (b, letter :: rest)

/-- The three forms of a byte. -/
theorem escapeByte_cases (b : UInt8) :
    (b ≠ Ascii.backslash ∧ b ≠ Ascii.quote ∧ ¬ b < Ascii.space ∧ escapeByte b = [b])
      ∨ (∃ letter, letter ≠ codeLetter ∧ shortForm? letter = some b
        ∧ escapeByte b = [Ascii.backslash, letter])
      ∨ escapeByte b = Ascii.backslash :: codeLetter :: Ascii.zero :: Ascii.zero :: Hex.encode [b] := by
  unfold escapeByte
  by_cases hbackslash : b = Ascii.backslash
  · subst hbackslash
    exact Or.inr (Or.inl ⟨Ascii.backslash, by decide, rfl, rfl⟩)
  by_cases hquote : b = Ascii.quote
  · subst hquote
    exact Or.inr (Or.inl ⟨Ascii.quote, by decide, rfl, rfl⟩)
  rw [if_neg hbackslash, if_neg hquote]
  by_cases hbackspace : b = Ascii.backspace
  · subst hbackspace
    exact Or.inr (Or.inl ⟨98, by decide, rfl, rfl⟩)
  by_cases hformFeed : b = Ascii.formFeed
  · subst hformFeed
    exact Or.inr (Or.inl ⟨102, by decide, rfl, rfl⟩)
  by_cases hnewline : b = Ascii.newline
  · subst hnewline
    exact Or.inr (Or.inl ⟨110, by decide, rfl, rfl⟩)
  by_cases hreturn : b = Ascii.carriageReturn
  · subst hreturn
    exact Or.inr (Or.inl ⟨114, by decide, rfl, rfl⟩)
  by_cases htab : b = Ascii.tab
  · subst htab
    exact Or.inr (Or.inl ⟨116, by decide, rfl, rfl⟩)
  rw [if_neg hbackspace, if_neg hformFeed, if_neg hnewline, if_neg hreturn, if_neg htab]
  by_cases hcontrol : b < Ascii.space
  · rw [if_pos hcontrol]
    exact Or.inr (Or.inr rfl)
  · rw [if_neg hcontrol]
    exact Or.inl ⟨hbackslash, hquote, hcontrol, rfl⟩

/-- **A written byte is read back**, whatever follows it. -/
theorem readByte?_escapeByte (b : UInt8) (rest : Bytes) :
    readByte? (escapeByte b ++ rest) = some (b, rest) := by
  rcases escapeByte_cases b with ⟨hbackslash, hquote, hcontrol, hform⟩
    | ⟨letter, hletter, hshort, hform⟩ | hform
  · rw [hform]
    cases rest <;>
      simp only [List.cons_append, List.nil_append, readByte?, hbackslash, hquote, hcontrol, or_self,
        if_false]
  · rw [hform]
    simp only [List.cons_append, List.nil_append, readByte?, if_true, hletter, if_false, hshort,
      Option.map_some]
  · -- the two digits of a code are the nibbles of the byte
    have hdigits : readCode? (Ascii.zero :: Ascii.zero :: Hex.encode [b] ++ rest) = some (b, rest) := by
      have hbyte : UInt8.ofNat (16 * (b >>> 4).toNat + (b &&& 15).toNat) = b := by
        rw [Hex.toNat_nibbles, UInt8.ofNat_toNat]
      simp only [Hex.encode_cons, Hex.encode_nil, List.cons_append, List.nil_append, readCode?, and_self,
        if_true, Hex.digitValue?_digit (Hex.toNat_high_lt b), Hex.digitValue?_digit (Hex.toNat_low_lt b),
        Option.pure_def, Option.bind_eq_bind, Option.bind_some, hbyte]
    rw [hform]
    exact hdigits

theorem readByte?_quote (rest : Bytes) : readByte? (Ascii.quote :: rest) = none := by
  cases rest <;> rfl

/-- A written byte is six bytes long at most. -/
theorem length_escapeByte_le (b : UInt8) : (escapeByte b).length ≤ 6 := by
  rcases escapeByte_cases b with ⟨-, -, -, hform⟩ | ⟨letter, -, -, hform⟩ | hform <;>
    rw [hform] <;> simp only [List.length_cons, List.length_nil, Hex.length_encode] <;> omega

theorem length_escape_le (text : Bytes) : (escape text).length ≤ 6 * text.length := by
  induction text with
  | nil => exact Nat.le_refl 0
  | cons b text ih =>
      have hb := length_escapeByte_le b
      rw [escape_cons, List.length_append, List.length_cons]
      omega

theorem length_quoted_le (text : Bytes) : (quoted text).length ≤ 6 * text.length + 2 := by
  have htext := length_escape_le text
  rw [quoted, List.cons_append, List.length_cons, List.length_append, List.length_singleton]
  omega

/-- Escaping drops nothing. -/
theorem length_le_length_escape (text : Bytes) : text.length ≤ (escape text).length := by
  induction text with
  | nil => exact Nat.le_refl 0
  | cons b text ih =>
      have hb : 0 < (escapeByte b).length := by
        rcases escapeByte_cases b with ⟨-, -, -, hform⟩ | ⟨letter, -, -, hform⟩ | hform <;> simp [hform]
      rw [escape_cons, List.length_append, List.length_cons]
      omega

theorem length_add_two_le_length_quoted (text : Bytes) : text.length + 2 ≤ (quoted text).length := by
  have htext := length_le_length_escape text
  rw [quoted, List.cons_append, List.length_cons, List.length_append, List.length_singleton]
  omega

/-! ## Strings -/

/-- The text of a string and what follows it are determined by the bytes up to the closing quote and
behind it. -/
theorem escape_append_quote_inj {s t x y : Bytes}
    (h : escape s ++ Ascii.quote :: x = escape t ++ Ascii.quote :: y) : s = t ∧ x = y := by
  induction s generalizing t with
  | nil =>
      cases t with
      | nil => exact ⟨rfl, (List.cons.inj h).2⟩
      | cons c t =>
          -- on one side nothing can be read, for the string ends there
          have hread := congrArg readByte? h
          rw [escape_nil, List.nil_append, readByte?_quote, escape_cons, List.append_assoc,
            readByte?_escapeByte] at hread
          cases hread
  | cons b s ih =>
      have hread := congrArg readByte? h
      rw [escape_cons, List.append_assoc, readByte?_escapeByte] at hread
      cases t with
      | nil =>
          rw [escape_nil, List.nil_append, readByte?_quote] at hread
          cases hread
      | cons c t =>
          rw [escape_cons, List.append_assoc, readByte?_escapeByte, Option.some.injEq,
            Prod.mk.injEq] at hread
          obtain ⟨hbc, hrest⟩ := hread
          obtain ⟨hst, hxy⟩ := ih hrest
          rw [hbc, hst]
          exact ⟨rfl, hxy⟩

/-- **A written string shows where it ends.** -/
theorem selfDelimiting_quoted : SelfDelimiting quoted := by
  intro s t x y h
  simp only [quoted, List.cons_append, List.append_assoc, List.nil_append] at h
  exact escape_append_quote_inj (List.cons.inj h).2

/-! ## Objects -/

section Objects

variable {α : Type} {write : α → Bytes}

/-- A member shows where it ends if its value does. -/
theorem selfDelimiting_member (hwrite : SelfDelimiting write) :
    SelfDelimiting fun m : Bytes × α => member m.1 (write m.2) := by
  rintro ⟨name, a⟩ ⟨name', b⟩ x y h
  simp only [member, List.append_assoc, List.cons_append] at h
  obtain ⟨hname, h⟩ := selfDelimiting_quoted h
  obtain ⟨hab, hxy⟩ := hwrite (List.cons.inj h).2
  exact ⟨Prod.ext hname hab, hxy⟩

/-- Members in front of a closing brace: the first, and a comma if there are more. -/
theorem intercalate_map_cons_append (a : α) (l : List α) (x : Bytes) :
    [Ascii.comma].intercalate ((a :: l).map write) ++ x
      = write a ++ (if l = [] then x else Ascii.comma :: [Ascii.comma].intercalate (l.map write) ++ x) := by
  cases l with
  | nil => rw [List.map_cons, List.map_nil, List.intercalate_singleton, if_pos rfl]
  | cons b l =>
      rw [if_neg (List.cons_ne_nil b l), List.map_cons, List.map_cons, List.intercalate_cons_cons]
      simp only [List.append_assoc, List.cons_append, List.nil_append]

/-- The members of an object and what follows it are determined by the bytes, as no member begins with
a brace that closes. -/
theorem intercalate_map_append_closeBrace_inj (hwrite : SelfDelimiting write)
    (hstart : ∀ a x y, write a ++ x ≠ Ascii.closeBrace :: y) {l m : List α} {x y : Bytes}
    (h : [Ascii.comma].intercalate (l.map write) ++ Ascii.closeBrace :: x
      = [Ascii.comma].intercalate (m.map write) ++ Ascii.closeBrace :: y) : l = m ∧ x = y := by
  induction l generalizing m with
  | nil =>
      cases m with
      | nil => exact ⟨rfl, (List.cons.inj h).2⟩
      | cons b m =>
          rw [intercalate_map_cons_append] at h
          exact absurd h.symm (hstart _ _ _)
  | cons a l ih =>
      rw [intercalate_map_cons_append] at h
      cases m with
      | nil => exact absurd h (hstart _ _ _)
      | cons b m =>
          rw [intercalate_map_cons_append] at h
          obtain ⟨hab, hrest⟩ := hwrite h
          subst hab
          -- a brace behind the member ends the object, and a comma goes on with it
          by_cases hl : l = []
          · by_cases hm : m = []
            · rw [if_pos hl, if_pos hm] at hrest
              rw [hl, hm]
              exact ⟨rfl, (List.cons.inj hrest).2⟩
            · rw [if_pos hl, if_neg hm] at hrest
              exact absurd (List.cons.inj hrest).1 (by decide)
          · by_cases hm : m = []
            · rw [if_neg hl, if_pos hm] at hrest
              exact absurd (List.cons.inj hrest).1 (by decide)
            · rw [if_neg hl, if_neg hm] at hrest
              obtain ⟨hlm, hxy⟩ := ih (List.cons.inj hrest).2
              rw [hlm]
              exact ⟨rfl, hxy⟩

/-- **An object shows where it ends**, and tells its members apart. -/
theorem selfDelimiting_object (hwrite : SelfDelimiting write) :
    SelfDelimiting fun l : List (Bytes × α) => object (l.map fun m => member m.1 (write m.2)) := by
  intro l m x y h
  simp only [object, List.cons_append, List.append_assoc, List.nil_append] at h
  refine intercalate_map_append_closeBrace_inj (selfDelimiting_member hwrite) ?_ (List.cons.inj h).2
  intro a x y hclose
  exact absurd (List.cons.inj hclose).1 (show Ascii.quote ≠ Ascii.closeBrace by decide)

end Objects

end SignedAudit.Json
