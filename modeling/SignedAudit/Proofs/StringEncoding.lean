import SignedAudit.Proofs.JsonReading

namespace SignedAudit

/-! # Escaping as an encoding

Inside a string of JSON a text of any bytes is written so that a reader of such strings finds its end and gets back
the text, byte for byte. The reader here goes byte by byte through strings of all forms, also those that are never
written: codes of four digits for any character, two of them for one beyond the first plane, letters behind a
backslash that need none. What stands for itself does so whatever its encoding is; since only ASCII is replaced,
and by ASCII only, the written text is UTF-8 just as far as the text itself is. -/

/-! ## UTF-8 -/

namespace Bytes

/-- **UTF-8**: the bytes encode a row of characters. -/
def IsUtf8 (text : Bytes) : Prop := text.toByteArray.IsValidUTF8

theorem isUtf8_iff (text : Bytes) :
    IsUtf8 text ↔ ∃ characters : List Char, characters.flatMap String.utf8EncodeChar = text := by
  constructor
  · rintro ⟨characters, h⟩
    exact ⟨characters, (List.toByteArray_inj.mp h).symm⟩
  · rintro ⟨characters, rfl⟩
    exact ⟨characters, rfl⟩

theorem IsUtf8.append {a b : Bytes} (ha : IsUtf8 a) (hb : IsUtf8 b) : IsUtf8 (a ++ b) := by
  rw [IsUtf8, List.toByteArray_append]
  exact ByteArray.IsValidUTF8.append ha hb

theorem isUtf8_nil : IsUtf8 [] := (isUtf8_iff []).mpr ⟨[], rfl⟩

/-- A byte of ASCII encodes the character of its number. -/
theorem utf8EncodeChar_ofNat {b : UInt8} (hb : b.toNat < 128) : String.utf8EncodeChar (Char.ofNat b.toNat) = [b] :=
  Bytes.forall_lt (motive := fun b => String.utf8EncodeChar (Char.ofNat b.toNat) = [b]) (by decide) b hb

/-- A character is encoded by one byte, or else by bytes beyond ASCII only. -/
theorem utf8EncodeChar_cases (c : Char) :
    (∃ b, String.utf8EncodeChar c = [b]) ∨ ∀ b ∈ String.utf8EncodeChar c, 128 ≤ b.toNat := by
  have hbyte : ∀ n m, 128 ≤ m → n + m < 256 → 128 ≤ (UInt8.ofNat (n + m)).toNat := by
    intro n m hm hlt
    have hn : (UInt8.ofNat (n + m)).toNat = n + m := UInt8.toNat_ofNat_of_lt hlt
    omega
  rw [String.utf8EncodeChar]
  split
  · exact .inl ⟨_, rfl⟩
  right
  -- each byte of a longer encoding is a remainder and a number from 128 on
  split
  · simp only [List.forall_mem_cons]
    exact ⟨hbyte _ _ (by omega) (by omega), hbyte _ _ (by omega) (by omega), List.forall_mem_nil _⟩
  split
  · simp only [List.forall_mem_cons]
    exact ⟨hbyte _ _ (by omega) (by omega), hbyte _ _ (by omega) (by omega), hbyte _ _ (by omega) (by omega),
      List.forall_mem_nil _⟩
  · simp only [List.forall_mem_cons]
    exact ⟨hbyte _ _ (by omega) (by omega), hbyte _ _ (by omega) (by omega), hbyte _ _ (by omega) (by omega),
      hbyte _ _ (by omega) (by omega), List.forall_mem_nil _⟩

/-- **A byte of ASCII cuts a text into two**, each of which is UTF-8 if the whole is. -/
theorem isUtf8_append_cons_iff {b : UInt8} (hb : b.toNat < 128) (u v : Bytes) :
    IsUtf8 (u ++ b :: v) ↔ IsUtf8 u ∧ IsUtf8 v := by
  constructor
  · simp only [isUtf8_iff]
    rintro ⟨characters, h⟩
    induction characters generalizing u with
    | nil => exact absurd h.symm (List.append_ne_nil_of_right_ne_nil u (List.cons_ne_nil b v))
    | cons c characters ih =>
        rw [List.flatMap_cons] at h
        obtain ⟨w, hu, hrest⟩ | ⟨w, hc, hrest⟩ := List.append_eq_append_iff.mp h
        · -- the byte stands behind the first character
          obtain ⟨⟨front, hfront⟩, hback⟩ := ih w hrest
          exact ⟨⟨c :: front, by rw [List.flatMap_cons, hfront, hu]⟩, hback⟩
        cases w with
        | nil =>
            -- it begins the second one
            obtain ⟨-, hback⟩ := ih [] hrest.symm
            exact ⟨⟨[c], by rw [List.flatMap_singleton, hc, List.append_nil]⟩, hback⟩
        | cons a w =>
            -- it is in the first one, and so all of it
            obtain ⟨rfl, hback⟩ := List.cons.inj hrest
            obtain ⟨d, hone⟩ | hlarge := utf8EncodeChar_cases c
            · obtain ⟨rfl, hw⟩ | ⟨-, hw⟩ := List.append_eq_singleton_iff.mp (hc.symm.trans hone)
              · obtain ⟨rfl, rfl⟩ := List.cons.inj hw
                exact ⟨⟨[], rfl⟩, ⟨characters, hback.symm⟩⟩
              · cases hw
            · have hmem : b ∈ String.utf8EncodeChar c := hc ▸ List.mem_append_right u List.mem_cons_self
              exact absurd (hlarge b hmem) (Nat.not_le.mpr hb)
  · rintro ⟨hu, hv⟩
    have hone : IsUtf8 [b] :=
      (isUtf8_iff [b]).mpr ⟨[Char.ofNat b.toNat], by rw [List.flatMap_singleton, utf8EncodeChar_ofNat hb]⟩
    exact hu.append (hone.append hv)

/-- ASCII in front of a text does not matter for its encoding. -/
theorem isUtf8_ascii_append_iff {a : Bytes} (ha : ∀ b ∈ a, b.toNat < 128) (text : Bytes) :
    IsUtf8 (a ++ text) ↔ IsUtf8 text := by
  induction a with
  | nil => rfl
  | cons b a ih =>
      obtain ⟨hb, ha⟩ := List.forall_mem_cons.mp ha
      have hcut := isUtf8_append_cons_iff hb [] (a ++ text)
      rw [List.cons_append, ← ih ha]
      exact hcut.trans (and_iff_right isUtf8_nil)

end Bytes

namespace Json

/-! ## Escaping keeps the encoding -/

/-- What is beyond ASCII stands for itself. -/
theorem escapeByte_of_le {b : UInt8} (hb : 128 ≤ b.toNat) : escapeByte b = [b] :=
  Bytes.forall_byte (motive := fun b => 128 ≤ b.toNat → escapeByte b = [b]) (by decide +kernel) b hb

/-- What is ASCII is written in ASCII. -/
theorem toNat_lt_of_mem_escapeByte {b c : UInt8} (hb : b.toNat < 128) (hc : c ∈ escapeByte b) : c.toNat < 128 := by
  have hascii : (escapeByte b).all (fun c => c.toNat < 128) = true :=
    Bytes.forall_lt (motive := fun b => (escapeByte b).all (fun c => c.toNat < 128) = true) (by decide +kernel) b hb
  exact of_decide_eq_true (List.all_eq_true.mp hascii c hc)

theorem escapeByte_ne_nil (b : UInt8) : escapeByte b ≠ [] := by
  rcases escapeByte_cases b with ⟨-, -, -, hform⟩ | ⟨letter, -, -, hform⟩ | hform <;> rw [hform] <;>
    exact List.cons_ne_nil _ _

/-- A text is UTF-8 behind another one exactly when its escaped form is. -/
theorem isUtf8_append_escape_iff (u text : Bytes) :
    Bytes.IsUtf8 (u ++ escape text) ↔ Bytes.IsUtf8 (u ++ text) := by
  induction text generalizing u with
  | nil => rfl
  | cons b text ih =>
      rw [escape_cons]
      obtain hb | hb := Nat.lt_or_ge b.toNat 128
      · -- the first byte that is written for a byte of ASCII cuts the text where this one does
        obtain ⟨c, written, hform⟩ := List.exists_cons_of_ne_nil (escapeByte_ne_nil b)
        have hascii : ∀ d ∈ c :: written, d.toNat < 128 := fun d hd =>
          toNat_lt_of_mem_escapeByte hb (hform ▸ hd)
        obtain ⟨hc, hwritten⟩ := List.forall_mem_cons.mp hascii
        rw [hform, List.cons_append, Bytes.isUtf8_append_cons_iff hc, Bytes.isUtf8_append_cons_iff hb,
          Bytes.isUtf8_ascii_append_iff hwritten]
        exact and_congr_right fun _ => ih []
      · have hshift := ih (u ++ [b])
        rw [List.append_assoc, List.append_assoc] at hshift
        rw [escapeByte_of_le hb]
        exact hshift

/-! ## Reading strings of any form -/

/-- **Where a reader is in a string**: between two characters, behind a backslash, or in a code, with the number of its
digits so far and how many are missing before the last one. In each place the reader may hold the first code of a
character that has two, and then takes nothing but the second. -/
inductive Reading
  | text (lead : Option Nat)
  | escape (lead : Option Nat)
  | code (lead : Option Nat) (missing number : Nat)
  deriving DecidableEq

namespace Reading

/-- What a code comes to: a character, or the wait for its second code. -/
def complete (number : Nat) : Option Nat → Option (Bytes × Reading)
  | none =>
    if number < 0xd800 ∨ 0xdfff < number then some (String.utf8EncodeChar (Char.ofNat number), text none)
    else if number < 0xdc00 then some ([], text (some number))
    else none
  | some lead =>
    if 0xdc00 ≤ number ∧ number ≤ 0xdfff then
      some (String.utf8EncodeChar (Char.ofNat (0x10000 + (lead - 0xd800) * 0x400 + (number - 0xdc00))), text none)
    else none

/-- Takes one byte: the bytes that the string is known to go on with, and where the reader is then. -/
def step : Reading → UInt8 → Option (Bytes × Reading)
  | text lead, b =>
    if b = Ascii.backslash then some ([], escape lead)
    else if lead.isSome ∨ b = Ascii.quote ∨ b < Ascii.space then none
    else some ([b], text none)
  | escape lead, b =>
    if b = codeLetter then some ([], code lead 3 0)
    else if lead.isSome then none
    else (shortForm? b).map fun c => ([c], text none)
  | code lead missing number, b => do
    let digit ← Hex.digitValue? b
    match missing with
    | 0 => complete (16 * number + digit) lead
    | missing + 1 => some ([], code lead missing (16 * number + digit))

/-- Takes all bytes of a text. -/
def run : Reading → Bytes → Option (Bytes × Reading)
  | reading, [] => some ([], reading)
  | reading, b :: rest =>
    (step reading b).bind fun taken => (run taken.2 rest).map fun others => (taken.1 ++ others.1, others.2)

/-- Takes bytes up to the closing quote: what the string stands for, and what follows the quote. -/
def finish : Reading → Bytes → Option (Bytes × Bytes)
  | _, [] => none
  | reading, b :: rest =>
    if reading = text none ∧ b = Ascii.quote then some ([], rest)
    else (step reading b).bind fun taken => (finish taken.2 rest).map fun others => (taken.1 ++ others.1, others.2)

end Reading

/-- Reads a string behind its opening quote: the bytes that it stands for, and what follows the closing quote. -/
def readString? (text : Bytes) : Option (Bytes × Bytes) := (Reading.text none).finish text

namespace Reading

/-- No byte but the quote between two characters ends a string. -/
theorem finish_cons_of_step {reading next : Reading} {b : UInt8} {first : Bytes}
    (h : reading.step b = some (first, next)) (rest : Bytes) :
    reading.finish (b :: rest) = (next.finish rest).map fun others => (first ++ others.1, others.2) := by
  have hquote : ¬(reading = text none ∧ b = Ascii.quote) := by
    rintro ⟨rfl, rfl⟩
    cases h
  rw [finish, if_neg hquote, h, Option.bind_some]

/-- What a reader takes in one go it takes on its way to the closing quote. -/
theorem finish_append {reading next : Reading} {written read : Bytes} (h : reading.run written = some (read, next))
    (rest : Bytes) :
    reading.finish (written ++ rest) = (next.finish rest).map fun others => (read ++ others.1, others.2) := by
  induction written generalizing reading read with
  | nil =>
      obtain ⟨rfl, rfl⟩ := Prod.mk.inj (Option.some.inj h)
      exact Option.map_id_apply.symm
  | cons b written ih =>
      rw [run] at h
      obtain ⟨⟨first, mid⟩, hstep, h⟩ := Option.bind_eq_some_iff.mp h
      obtain ⟨⟨others, last⟩, hrun, h⟩ := Option.map_eq_some_iff.mp h
      obtain ⟨rfl, rfl⟩ := Prod.mk.inj h
      rw [List.cons_append, finish_cons_of_step hstep, ih hrun, Option.map_map]
      simp only [Function.comp_def, List.append_assoc]

/-- A byte that says nothing yet. -/
theorem run_cons_of_step {reading next : Reading} {b : UInt8} (h : reading.step b = some ([], next)) (rest : Bytes) :
    reading.run (b :: rest) = next.run rest := by
  rw [run, h, Option.bind_some]
  exact Option.map_id_apply

theorem run_singleton (reading : Reading) (b : UInt8) : reading.run [b] = reading.step b := by
  rw [run]
  cases reading.step b with
  | none => rfl
  | some taken => simp only [Option.bind_some, run, Option.map_some, List.append_nil]

theorem step_code {b : UInt8} {digit : Nat} (hb : Hex.digitValue? b = some digit) (lead : Option Nat)
    (missing number : Nat) :
    (code lead (missing + 1) number).step b = some ([], code lead missing (16 * number + digit)) := by
  rw [step, hb]
  rfl

theorem step_code_last {b : UInt8} {digit : Nat} (hb : Hex.digitValue? b = some digit) (lead : Option Nat)
    (number : Nat) : (code lead 0 number).step b = complete (16 * number + digit) lead := by
  rw [step, hb]
  rfl

theorem complete_of_lt {number : Nat} (h : number < 0xd800) :
    complete number none = some (String.utf8EncodeChar (Char.ofNat number), text none) := by
  rw [complete, if_pos (Or.inl h)]

/-- **A written byte is read as this byte**, in whichever form it is written. -/
theorem run_escapeByte (b : UInt8) : (text none).run (escapeByte b) = some ([b], text none) := by
  have hescape : (text none).step Ascii.backslash = some ([], escape none) := rfl
  rcases escapeByte_cases b with ⟨hbackslash, hquote, hcontrol, hform⟩
    | ⟨letter, hletter, hshort, hform⟩ | hform
  · rw [hform, run_singleton, step, if_neg hbackslash, if_neg (by simp [hquote, hcontrol])]
  · rw [hform, run_cons_of_step hescape, run_singleton, step, if_neg hletter, hshort]
    rfl
  · -- the code of a byte is its number behind two zeros, and only bytes of ASCII are written as codes
    have hcode : (escape none).step codeLetter = some ([], code none 3 0) := rfl
    have hzero : Hex.digitValue? Ascii.zero = some 0 := rfl
    have hascii : b.toNat < 128 := by
      refine Nat.lt_of_not_le fun hb => ?_
      rw [escapeByte_of_le hb] at hform
      cases hform
    have hnumber : 16 * (16 * (16 * (16 * 0 + 0) + 0) + (b >>> 4).toNat) + (b &&& 15).toNat = b.toNat := by
      rw [Nat.mul_zero, Nat.zero_add, Hex.toNat_nibbles]
    rw [hform, Hex.encode_cons, Hex.encode_nil, run_cons_of_step hescape, run_cons_of_step hcode,
      run_cons_of_step (step_code hzero _ _ _), run_cons_of_step (step_code hzero _ _ _),
      run_cons_of_step (step_code (Hex.digitValue?_digit (Hex.toNat_high_lt b)) _ _ _), run_singleton,
      step_code_last (Hex.digitValue?_digit (Hex.toNat_low_lt b)), hnumber, complete_of_lt (by omega),
      Bytes.utf8EncodeChar_ofNat hascii]

end Reading

/-- **A written text is read up to its closing quote**, and the quote is the first one that is read. -/
theorem readString?_escape (t rest : Bytes) :
    readString? (escape t ++ Ascii.quote :: rest) = some (t, rest) := by
  rw [readString?]
  induction t with
  | nil => rfl
  | cons b t ih =>
      rw [escape_cons, List.append_assoc, Reading.finish_append (Reading.run_escapeByte b), ih]
      rfl

/-- Codes in either case, a character of two codes, and one that lacks its second code. -/
example :
    readString? (Bytes.ascii "\\u00E9\\/\\ud83d\\ude00\" x")
        = some ([0xc3, 0xa9, 0x2f, 0xf0, 0x9f, 0x98, 0x80], Bytes.ascii " x")
      ∧ readString? (Bytes.ascii "\\ud83d\"") = none := by decide

theorem escape_injective : Function.Injective escape := by
  intro s t h
  have hread := readString?_escape s []
  rw [h, readString?_escape] at hread
  exact (Prod.mk.inj (Option.some.inj hread)).1.symm

/-- **Escaping is a reversible encoding that shows where it ends.** For every text of any bytes, a reader of JSON
strings stops at the quote that follows the written text, and has then read the text. The written text holds no
control byte, it is UTF-8 exactly when the text is, and it is written part by part, so that no two texts are written
alike. -/
theorem escape_reversible_encoding :
    (∀ t rest, readString? (escape t ++ Ascii.quote :: rest) = some (t, rest))
      ∧ (∀ t, ∀ b ∈ escape t, Ascii.space ≤ b)
      ∧ (∀ t, Bytes.IsUtf8 (escape t) ↔ Bytes.IsUtf8 t)
      ∧ (∀ a b, escape (a ++ b) = escape a ++ escape b)
      ∧ Function.Injective escape := by
  have hutf8 : ∀ t, Bytes.IsUtf8 (escape t) ↔ Bytes.IsUtf8 t := isUtf8_append_escape_iff []
  exact ⟨readString?_escape, isPrintable_escape, hutf8, escape_append, escape_injective⟩

end Json

end SignedAudit
