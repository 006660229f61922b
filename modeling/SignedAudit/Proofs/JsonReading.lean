import SignedAudit.Instant.Parse
import SignedAudit.Proofs.Digits
import SignedAudit.Proofs.JsonText

namespace SignedAudit.Json

/-! # Reading JSON text

A reader for the part of JSON that this library writes: strings, integers in their normal form, and
objects, byte by byte and without white space. Object members keep their order. What is written as a
value is read back as this value, whatever comes behind it, and none of it is a control byte.

The reader counts its steps down, for an object holds values that may be objects in their turn. Each step
takes a byte off the text at least, so that the length of the text is always enough. -/

open Instant (takeByte?)

/-- What a JSON text stands for. -/
inductive Value
  | text (t : Bytes)
  | integer (n : Int)
  | object (members : List (Bytes × Value))

/-! ## Strings -/

theorem length_lt_of_readCode? {text rest : Bytes} {b : UInt8} (h : readCode? text = some (b, rest)) :
    rest.length < text.length := by
  unfold readCode? at h
  split at h
  · split at h
    · simp only [Option.pure_def, Option.bind_eq_bind, Option.bind_eq_some_iff, Option.some.injEq,
        Prod.mk.injEq] at h
      obtain ⟨high, -, low, -, -, rfl⟩ := h
      simp only [List.length_cons]
      omega
    · cases h
  · cases h

/-- A byte that is read is taken off the text. -/
theorem length_lt_of_readByte? {text rest : Bytes} {b : UInt8} (h : readByte? text = some (b, rest)) :
    rest.length < text.length := by
  unfold readByte? at h
  split at h
  · cases h
  · split at h
    · cases h
    · cases h
      exact Nat.zero_lt_one
  · next first letter tail =>
      split at h
      · split at h
        · have hcode := length_lt_of_readCode? h
          simp only [List.length_cons]
          omega
        · obtain ⟨c, -, hc⟩ := Option.map_eq_some_iff.mp h
          cases hc
          simp only [List.length_cons]
          omega
      · split at h
        · cases h
        · cases h
          simp only [List.length_cons]
          omega

/-- Reads a string behind its opening quote: the text, and what follows the closing quote. -/
def readText? (text : Bytes) : Option (Bytes × Bytes) :=
  match _ : readByte? text with
  | some (b, rest) => (readText? rest).map fun read => (b :: read.1, read.2)
  | none => (takeByte? Ascii.quote text).map fun rest => ([], rest)
termination_by text.length
decreasing_by exact length_lt_of_readByte? ‹_›

theorem readText?_of_readByte? {text rest : Bytes} {b : UInt8} (h : readByte? text = some (b, rest)) :
    readText? text = (readText? rest).map fun read => (b :: read.1, read.2) := by
  rw [readText?]
  split
  · next c tail hread =>
      rw [h] at hread
      cases hread
      rfl
  · next hread =>
      rw [h] at hread
      cases hread

theorem readText?_quote (rest : Bytes) : readText? (Ascii.quote :: rest) = some ([], rest) := by
  rw [readText?]
  split
  · next b tail hread =>
      rw [readByte?_quote] at hread
      cases hread
  · rfl

/-- **A written text is read up to its closing quote.** -/
theorem readText?_escape (t rest : Bytes) :
    readText? (escape t ++ Ascii.quote :: rest) = some (t, rest) := by
  induction t with
  | nil => exact readText?_quote rest
  | cons b t ih =>
      rw [escape_cons, List.append_assoc, readText?_of_readByte? (readByte?_escapeByte b _), ih]
      rfl

/-! ## Values -/

/-- Reads an integer in its normal form: no zero that could be left out, no minus sign before a zero. -/
def readInteger? (text : Bytes) : Option (Int × Bytes) :=
  let numeral := text.takeWhile fun b => b = Ascii.dash || Decimal.isDigit b
  match Decimal.int? numeral with
  | some n => if Decimal.ofInt n = numeral then some (n, text.drop numeral.length) else none
  | none => none

mutual

/-- Reads a value off the front of a text: the value, and what follows it. -/
def readValue? : (steps : Nat) → Bytes → Option (Value × Bytes)
  | 0, _ => none
  | _ + 1, [] => none
  | steps + 1, b :: rest =>
    if b = Ascii.quote then (readText? rest).map fun read => (.text read.1, read.2)
    else if b = Ascii.openBrace then
      match takeByte? Ascii.closeBrace rest with
      | some after => some (.object [], after)
      | none => (readMembers? steps rest).map fun read => (.object read.1, read.2)
    else (readInteger? (b :: rest)).map fun read => (.integer read.1, read.2)

/-- Reads the members of an object, one at least, and the closing brace. -/
def readMembers? : (steps : Nat) → Bytes → Option (List (Bytes × Value) × Bytes)
  | 0, _ => none
  | steps + 1, text => do
    let text ← takeByte? Ascii.quote text
    let (name, text) ← readText? text
    let text ← takeByte? Ascii.colon text
    let (value, text) ← readValue? steps text
    match text with
    | [] => none
    | b :: text =>
      if b = Ascii.closeBrace then some ([(name, value)], text)
      else if b = Ascii.comma then
        (readMembers? steps text).map fun read => ((name, value) :: read.1, read.2)
      else none

end

/-- Reads a whole text as one value. -/
def read? (text : Bytes) : Option Value :=
  match readValue? text.length text with
  | some (v, []) => some v
  | _ => none

/-! ## What is written is read -/

/-- Where a value may end: at the end of the text, at a comma or at a closing brace. -/
def IsBoundary (rest : Bytes) : Prop := ∀ b ∈ rest.head?, b = Ascii.comma ∨ b = Ascii.closeBrace

/-- **A writing of a value**: the value is read off the front of any text that begins with the writing and
goes on at a boundary, in as many steps as the writing has bytes. -/
def Writes (written : Bytes) (v : Value) : Prop :=
  ∀ ⦃steps : Nat⦄ ⦃rest : Bytes⦄, written.length ≤ steps → IsBoundary rest →
    readValue? steps (written ++ rest) = some (v, rest)

/-- A writing is read as a whole text. -/
theorem read?_eq_some {written : Bytes} {v : Value} (h : Writes written v) : read? written = some v := by
  have hread : readValue? written.length (written ++ []) = some (v, []) := by
    apply h (Nat.le_refl _)
    intro b hb
    cases hb
  rw [List.append_nil] at hread
  rw [read?, hread]

theorem writes_quoted (t : Bytes) : Writes (quoted t) (.text t) := by
  intro steps rest hsteps _
  cases steps with
  | zero => exact absurd hsteps (Nat.not_succ_le_zero _)
  | succ n =>
      show readValue? (n + 1) (Ascii.quote :: (escape t ++ [Ascii.quote]) ++ rest) = _
      rw [List.cons_append, List.append_assoc, List.singleton_append, readValue?, if_pos rfl,
        readText?_escape]
      rfl

/-- An integer in front of a boundary is read back. -/
theorem readInteger?_ofInt (n : Int) {rest : Bytes} (h : IsBoundary rest) :
    readInteger? (Decimal.ofInt n ++ rest) = some (n, rest) := by
  have hnumeral : (Decimal.ofInt n ++ rest).takeWhile (fun b => b = Ascii.dash || Decimal.isDigit b)
      = Decimal.ofInt n := by
    rw [List.takeWhile_append_of_pos]
    · cases rest with
      | nil => simp
      | cons b rest =>
          have hb : (b = Ascii.dash || Decimal.isDigit b) = false := by
            obtain rfl | rfl := h b rfl <;> decide
          simp [hb]
    · intro b hb
      simpa using Decimal.mem_ofInt hb
  unfold readInteger?
  simp only [hnumeral, Decimal.int?_ofInt, if_true, List.drop_left]

theorem writes_ofInt (n : Int) : Writes (Decimal.ofInt n) (.integer n) := by
  intro steps rest hsteps hrest
  have hread := readInteger?_ofInt n hrest
  cases hnumeral : Decimal.ofInt n with
  | nil =>
      have hsome := Decimal.int?_ofInt n
      rw [hnumeral] at hsome
      cases hsome
  | cons b digits =>
      rw [hnumeral] at hsteps hread
      obtain _ | k := steps
      · exact absurd hsteps (Nat.not_succ_le_zero _)
      -- neither a quote nor a brace begins a numeral
      have hb : b = Ascii.dash ∨ Decimal.isDigit b = true :=
        Decimal.mem_ofInt (n := n) (by rw [hnumeral]; exact List.mem_cons_self)
      have hquote : b ≠ Ascii.quote := by
        rintro rfl
        exact absurd hb (by decide)
      have hbrace : b ≠ Ascii.openBrace := by
        rintro rfl
        exact absurd hb (by decide)
      rw [List.cons_append, readValue?, if_neg hquote, if_neg hbrace, ← List.cons_append, hread]
      rfl

section Objects

variable {α : Type} {write : α → Bytes} {value : α → Value}

/-- A member, and the closing brace or the members behind it. -/
theorem readMembers?_member {written : Bytes} {v : Value} (h : Writes written v) (name : Bytes) {b : UInt8}
    (hb : b = Ascii.comma ∨ b = Ascii.closeBrace) {steps : Nat} (hsteps : written.length ≤ steps)
    (rest : Bytes) :
    readMembers? (steps + 1) (member name written ++ b :: rest) =
      if b = Ascii.closeBrace then some ([(name, v)], rest)
      else (readMembers? steps rest).map fun read => ((name, v) :: read.1, read.2) := by
  have hquoted : member name written ++ b :: rest
      = Ascii.quote :: (escape name ++ Ascii.quote :: Ascii.colon :: (written ++ b :: rest)) := by
    simp only [member, quoted, List.append_assoc, List.cons_append, List.nil_append]
  have hvalue : readValue? steps (written ++ b :: rest) = some (v, b :: rest) := by
    apply h hsteps
    intro c hc
    rw [List.head?_cons, Option.mem_some_iff] at hc
    rwa [← hc]
  rw [hquoted, readMembers?]
  simp only [takeByte?, if_true, readText?_escape, hvalue, Option.bind_eq_bind, Option.bind_some]
  obtain rfl | rfl := hb <;> rfl

/-- The members of an object are read up to its brace. -/
theorem readMembers?_intercalate (m : Bytes × α) (members : List (Bytes × α)) {steps : Nat} (rest : Bytes)
    (hwrite : ∀ k ∈ m :: members, Writes (write k.2) (value k.2))
    (hsteps : ([Ascii.comma].intercalate ((m :: members).map fun m => member m.1 (write m.2))).length
      < steps) :
    readMembers? steps ([Ascii.comma].intercalate ((m :: members).map fun m => member m.1 (write m.2))
        ++ Ascii.closeBrace :: rest)
      = some ((m :: members).map fun m => (m.1, value m.2), rest) := by
  -- each member takes one step and the byte behind it; the first one is there in any case
  induction members generalizing m steps with
  | nil =>
      cases steps with
      | zero => exact absurd hsteps (Nat.not_lt_zero _)
      | succ n =>
          simp only [List.map_cons, List.map_nil, List.intercalate_singleton, member,
            List.length_append, List.length_cons] at hsteps
          rw [List.map_cons, List.map_nil, List.intercalate_singleton,
            readMembers?_member (hwrite m List.mem_cons_self) m.1 (.inr rfl) (by omega)]
          rfl
  | cons next members ih =>
      cases steps with
      | zero => exact absurd hsteps (Nat.not_lt_zero _)
      | succ n =>
          simp only [List.map_cons, List.intercalate_cons_cons, member, List.length_append,
            List.length_cons] at hsteps
          rw [intercalate_map_cons_append, if_neg (List.cons_ne_nil next members), List.cons_append,
            readMembers?_member (hwrite m List.mem_cons_self) m.1 (.inl rfl) (by omega),
            if_neg (by decide), ih next]
          · rfl
          · intro k hk
            exact hwrite k (List.mem_cons_of_mem m hk)
          · simp only [List.map_cons, member]
            omega

/-- **An object of written members is read as the object of their values.** -/
theorem writes_object (members : List (Bytes × α))
    (hwrite : ∀ m ∈ members, Writes (write m.2) (value m.2)) :
    Writes (object (members.map fun m => member m.1 (write m.2)))
      (.object (members.map fun m => (m.1, value m.2))) := by
  intro steps rest hsteps _
  simp only [object, List.cons_append, List.length_cons, List.length_append, List.length_nil] at hsteps
  obtain _ | n := steps
  · exact absurd hsteps (Nat.not_succ_le_zero _)
  simp only [object, List.cons_append, List.append_assoc, List.nil_append]
  rw [readValue?, if_neg (by decide), if_pos rfl]
  cases members with
  | nil => rfl
  | cons m members =>
      -- behind the brace stands the quote of the first name, so the object is not empty
      have hopen : takeByte? Ascii.closeBrace
          ([Ascii.comma].intercalate ((m :: members).map fun m => member m.1 (write m.2))
            ++ Ascii.closeBrace :: rest) = none := by
        rw [intercalate_map_cons_append]
        rfl
      rw [hopen, readMembers?_intercalate m members rest hwrite (by omega)]
      rfl

end Objects

/-! ## No control bytes -/

/-- **Free of control bytes**: no byte is below the space. -/
def IsPrintable (text : Bytes) : Prop := ∀ b ∈ text, Ascii.space ≤ b

theorem IsPrintable.zero_notMem {text : Bytes} (h : IsPrintable text) : 0 ∉ text := by
  intro hzero
  exact absurd (h 0 hzero) (by decide)

theorem IsPrintable.append {a b : Bytes} (ha : IsPrintable a) (hb : IsPrintable b) :
    IsPrintable (a ++ b) := by
  intro c hc
  exact (List.mem_append.mp hc).elim (ha c) (hb c)

theorem IsPrintable.cons {b : UInt8} {text : Bytes} (hb : Ascii.space ≤ b) (h : IsPrintable text) :
    IsPrintable (b :: text) := by
  intro c hc
  obtain rfl | hc := List.mem_cons.mp hc
  · exact hb
  · exact h c hc

/-- Control bytes are written with other bytes. -/
theorem isPrintable_escapeByte (b : UInt8) : IsPrintable (escapeByte b) := by
  have hprintable : (escapeByte b).all (fun c => Ascii.space ≤ c) = true :=
    Bytes.forall_byte (motive := fun b => (escapeByte b).all (fun c => Ascii.space ≤ c) = true)
      (by decide +kernel) b
  intro c hc
  exact of_decide_eq_true (List.all_eq_true.mp hprintable c hc)

theorem isPrintable_escape (text : Bytes) : IsPrintable (escape text) := by
  intro c hc
  obtain ⟨b, -, hb⟩ := List.mem_flatMap.mp hc
  exact isPrintable_escapeByte b c hb

/-- **A string is free of control bytes**, whatever text it stands for. -/
theorem isPrintable_quoted (text : Bytes) : IsPrintable (quoted text) := by
  apply IsPrintable.cons (by decide)
  apply (isPrintable_escape text).append
  exact List.forall_mem_singleton.mpr (by decide)

theorem isPrintable_member (name : Bytes) {value : Bytes} (h : IsPrintable value) :
    IsPrintable (member name value) := by
  apply (isPrintable_quoted name).append
  exact h.cons (by decide)

/-- What holds of the punctuation and of all members holds of an object. -/
theorem forall_mem_object {P : UInt8 → Prop} (hopen : P Ascii.openBrace) (hcomma : P Ascii.comma)
    (hclose : P Ascii.closeBrace) {members : List Bytes} (h : ∀ m ∈ members, ∀ b ∈ m, P b) :
    ∀ b ∈ object members, P b := by
  have hmembers : ∀ b ∈ [Ascii.comma].intercalate members, P b := by
    induction members with
    | nil => simp
    | cons m members ih =>
        obtain ⟨hm, hrest⟩ := List.forall_mem_cons.mp h
        cases members with
        | nil => simpa using hm
        | cons n members =>
            rw [List.intercalate_cons_cons, List.forall_mem_append, List.forall_mem_append,
              List.forall_mem_singleton]
            exact ⟨⟨hm, hcomma⟩, ih hrest⟩
  rw [object, List.cons_append, List.forall_mem_cons, List.forall_mem_append, List.forall_mem_singleton]
  exact ⟨hopen, hmembers, hclose⟩

theorem isPrintable_object {members : List Bytes} (h : ∀ m ∈ members, IsPrintable m) :
    IsPrintable (object members) :=
  forall_mem_object (by decide) (by decide) (by decide) h

theorem isPrintable_ofInt (n : Int) : IsPrintable (Decimal.ofInt n) := by
  intro b hb
  rcases Decimal.mem_ofInt hb with rfl | hdigit
  · decide
  · rw [Decimal.isDigit, Bool.and_eq_true, decide_eq_true_eq] at hdigit
    exact UInt8.le_trans (by decide) hdigit.1

end SignedAudit.Json
