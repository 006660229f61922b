import Mathlib.Data.Fintype.Prod
import SignedAudit.Proofs.TamperEvidence

namespace SignedAudit.Record

/-! # Identifiers of records

An identifier is sixteen random bytes with six bits overwritten: four by the version, two by the variant. All draws
have the same layout, which is proved part by part from the place at which each part begins. Without its dashes an
identifier is the hexadecimal text of its bytes, so nothing is lost in the layout; and the six bits are the
same in all identifiers, so that two draws are told apart by the other 122. -/

open Bytes

/-! ## Layout -/

/-- The places of the dashes. -/
def dashPlaces : List Nat := [8, 13, 18, 23]

/-- **The layout of an identifier**: 36 characters, dashes at four places, the version, the variant, and lower-case
hexadecimal digits at all places but those of the dashes. -/
structure HasIdLayout (text : Bytes) : Prop where
  length : text.length = 36
  dash : ∀ i ∈ dashPlaces, text[i]? = some Ascii.dash
  version : text[14]?.toList = ascii "4"
  variant : ∃ b ∈ ascii "89ab", text[19]? = some b
  digit : ∀ i b, i ∉ dashPlaces → text[i]? = some b → Hex.isDigit b = true

/-- What may stand at a place of an identifier. -/
def MayStandAt (i : Nat) (b : UInt8) : Prop :=
  if i ∈ dashPlaces then b = Ascii.dash
  else if i = 14 then [b] = ascii "4"
  else if i = 19 then b ∈ ascii "89ab"
  else Hex.isDigit b = true

/-- **Fills**: a text that may stand at `count` places of an identifier, from a given one on. -/
def Fills (start count : Nat) (text : Bytes) : Prop :=
  text.length = count ∧ ∀ i b, text[i]? = some b → MayStandAt (start + i) b

/-- The check of the form goes through the places one by one. -/
theorem hasIdForm_iff (text : Bytes) : hasIdForm text = true ↔ Fills 0 36 text := by
  rw [hasIdForm, Bool.and_eq_true, beq_iff_eq, List.all_eq_true, Fills]
  apply and_congr_right
  intro _
  constructor
  · intro h i b hb
    have hplace := h (b, i) (List.mem_zipIdx_iff_getElem?.mpr hb)
    simpa [MayStandAt, dashPlaces, ascii] using hplace
  · rintro h ⟨b, i⟩ hb
    have hplace := h i b (List.mem_zipIdx_iff_getElem?.mp hb)
    simpa [MayStandAt, dashPlaces, ascii] using hplace

theorem isDigit_of_mayStandAt {i : Nat} {b : UInt8} (hi : i ∉ dashPlaces) (h : MayStandAt i b) :
    Hex.isDigit b = true := by
  have hvariant : (ascii "89ab").all Hex.isDigit = true := rfl
  rw [MayStandAt, if_neg hi] at h
  split at h
  · obtain ⟨rfl, -⟩ := List.cons.inj h
    decide
  split at h
  · exact List.all_eq_true.mp hvariant b h
  · exact h

/-- A text that passes the check has the layout. -/
theorem hasIdLayout_of_hasIdForm {text : Bytes} (h : hasIdForm text = true) : HasIdLayout text := by
  obtain ⟨hlength, hplaces⟩ := (hasIdForm_iff text).mp h
  have hbyte : ∀ i, i < 36 → ∃ b, text[i]? = some b ∧ MayStandAt i b := by
    intro i hi
    have hb := List.getElem?_eq_getElem (hlength ▸ hi)
    have hstands := hplaces i _ hb
    rw [Nat.zero_add] at hstands
    exact ⟨_, hb, hstands⟩
  refine ⟨hlength, ?_, ?_, ?_, ?_⟩
  · intro i hi
    have hlt : ∀ i ∈ dashPlaces, i < 36 := by decide
    obtain ⟨b, hb, hstands⟩ := hbyte i (hlt i hi)
    rw [MayStandAt, if_pos hi] at hstands
    rw [hb, hstands]
  · obtain ⟨b, hb, hstands⟩ := hbyte 14 (by decide)
    rw [hb]
    exact hstands
  · obtain ⟨b, hb, hstands⟩ := hbyte 19 (by decide)
    exact ⟨b, hstands, hb⟩
  · intro i b hi hb
    have hstands := hplaces i b hb
    rw [Nat.zero_add] at hstands
    exact isDigit_of_mayStandAt hi hstands

/-! ## Part by part -/

theorem Fills.append {start n m : Nat} {a b : Bytes} (ha : Fills start n a) (hb : Fills (start + n) m b) :
    Fills start (n + m) (a ++ b) := by
  obtain ⟨rfl, ha⟩ := ha
  obtain ⟨rfl, hb⟩ := hb
  refine ⟨List.length_append, fun i c hc => ?_⟩
  rw [List.getElem?_append] at hc
  split at hc
  · exact ha i c hc
  · next hi =>
      have hplace := hb _ c hc
      rwa [Nat.add_assoc, Nat.add_sub_of_le (Nat.not_lt.mp hi)] at hplace

theorem Fills.cons {start n : Nat} {b : UInt8} {rest : Bytes} (hb : MayStandAt start b)
    (hrest : Fills (start + 1) n rest) : Fills start (n + 1) (b :: rest) := by
  obtain ⟨rfl, hrest⟩ := hrest
  refine ⟨List.length_cons, fun i c hc => ?_⟩
  cases i with
  | zero =>
      obtain rfl := Option.some.inj hc
      exact hb
  | succ i =>
      have hplace := hrest i c hc
      rwa [Nat.add_right_comm, Nat.add_assoc] at hplace

theorem mayStandAt_dash {i : Nat} (hi : i ∈ dashPlaces) : MayStandAt i Ascii.dash := by
  rw [MayStandAt, if_pos hi]

/-- A place of a digit that neither the version nor the variant decides. -/
abbrev IsDigitPlace (i : Nat) : Prop := i ∉ dashPlaces ∧ i ≠ 14 ∧ i ≠ 19

theorem IsDigitPlace.mayStandAt {i : Nat} {b : UInt8} (hi : IsDigitPlace i) (hb : Hex.isDigit b = true) :
    MayStandAt i b := by
  obtain ⟨hdash, hversion, hvariant⟩ := hi
  rwa [MayStandAt, if_neg hdash, if_neg hversion, if_neg hvariant]

/-- The digits of some bytes fill places of digits. -/
theorem fills_encode {start n : Nat} {bytes : Bytes} (hlength : bytes.length = n)
    (hplaces : ∀ i < 2 * n, IsDigitPlace (start + i)) : Fills start (2 * n) (Hex.encode bytes) := by
  subst hlength
  refine ⟨Hex.length_encode bytes, fun i b hb => ?_⟩
  obtain ⟨hi, -⟩ := List.getElem?_eq_some_iff.mp hb
  rw [Hex.length_encode] at hi
  exact (hplaces i hi).mayStandAt (Hex.isDigit_of_mem_encode (List.mem_of_getElem? hb))

/-- So do those of some bytes of which the first has its upper half at another place. -/
theorem fills_encode_cons {start n : Nat} {b : UInt8} {bytes : Bytes}
    (hhigh : MayStandAt start (Hex.digit (b >>> 4))) (hlength : bytes.length = n)
    (hlow : IsDigitPlace (start + 1)) (hplaces : ∀ i < 2 * n, IsDigitPlace (start + 1 + 1 + i)) :
    Fills start (2 * n + 1 + 1) (Hex.encode (b :: bytes)) := by
  have hdigit := hlow.mayStandAt (Hex.isDigit_digit (Hex.toNat_low_lt b))
  exact Fills.cons hhigh (Fills.cons hdigit (fills_encode hlength hplaces))

theorem take_drop_of_getElem? {bytes : Bytes} {i : Nat} {b : UInt8} (h : bytes[i]? = some b) (n : Nat) :
    (bytes.drop i).take (n + 1) = b :: (bytes.drop (i + 1)).take n := by
  obtain ⟨hi, rfl⟩ := List.getElem?_eq_some_iff.mp h
  rw [List.drop_eq_getElem_cons hi, List.take_succ_cons]

/-- **Sixteen bytes are laid out as an identifier** if the upper halves of the seventh and the ninth are a version and
a variant. -/
theorem hasIdForm_formatId {bytes : Bytes} {v w : UInt8} (hlength : bytes.length = 16)
    (hv : bytes[6]? = some v) (hversion : MayStandAt 14 (Hex.digit (v >>> 4)))
    (hw : bytes[8]? = some w) (hvariant : MayStandAt 19 (Hex.digit (w >>> 4))) :
    hasIdForm (formatId bytes) = true := by
  have hgroup : ∀ i n, i + n ≤ 16 → ((bytes.drop i).take n).length = n := by
    intro i n hin
    rw [List.length_take, List.length_drop]
    omega
  have hlast : (bytes.drop 10).length = 6 := by rw [List.length_drop, hlength]
  have h0 : Fills 0 8 (Hex.encode (bytes.take 4)) := fills_encode (hgroup 0 4 (by decide)) (by decide)
  have h9 : Fills 9 4 (Hex.encode ((bytes.drop 4).take 2)) := fills_encode (hgroup 4 2 (by decide)) (by decide)
  have h14 : Fills 14 4 (Hex.encode ((bytes.drop 6).take 2)) := by
    rw [take_drop_of_getElem? hv]
    exact fills_encode_cons hversion (hgroup 7 1 (by decide)) (by decide) (by decide)
  have h19 : Fills 19 4 (Hex.encode ((bytes.drop 8).take 2)) := by
    rw [take_drop_of_getElem? hw]
    exact fills_encode_cons hvariant (hgroup 9 1 (by decide)) (by decide) (by decide)
  have h24 : Fills 24 12 (Hex.encode (bytes.drop 10)) := fills_encode hlast (by decide)
  -- each group stands behind its dash, and all of them one behind the other
  have hupTo13 := h0.append (h9.cons (mayStandAt_dash (i := 8) (by decide)))
  have hupTo18 := hupTo13.append (h14.cons (mayStandAt_dash (i := 13) (by decide)))
  have hupTo23 := hupTo18.append (h19.cons (mayStandAt_dash (i := 18) (by decide)))
  rw [hasIdForm_iff, formatId]
  exact hupTo23.append (h24.cons (mayStandAt_dash (i := 23) (by decide)))

/-! ## The overwritten bits -/

/-- The bits of a byte that are kept. -/
def mask (i : Nat) : UInt8 := if i = 6 then 0x0f else if i = 8 then 0x3f else 0xff

/-- The bits that are set in a byte. -/
def mark (i : Nat) : UInt8 := if i = 6 then 0x40 else if i = 8 then 0x80 else 0

/-- What becomes of the byte at a place. -/
def stampAt (i : Nat) (b : UInt8) : UInt8 := (b &&& mask i) ||| mark i

theorem stampAt_of_ne {i : Nat} (h6 : i ≠ 6) (h8 : i ≠ 8) (b : UInt8) : stampAt i b = b := by
  have hbyte : (b &&& 0xff) ||| 0 = b :=
    Bytes.forall_byte (motive := fun b => (b &&& 0xff) ||| 0 = b) (by decide +kernel) b
  rwa [stampAt, mask, mark, if_neg h6, if_neg h8, if_neg h6, if_neg h8]

theorem getElem?_stampVersion (seed : FixedBytes 16) (i : Nat) :
    (stampVersion seed)[i]? = seed.val[i]?.map (stampAt i) := by
  rw [stampVersion, List.getElem?_modify, List.getElem?_modify]
  cases seed.val[i]? with
  | none => rfl
  | some b =>
      simp only [Option.map_eq_map, Option.map_some, Option.some.injEq]
      by_cases h6 : i = 6
      · subst h6
        rfl
      by_cases h8 : i = 8
      · subst h8
        rfl
      · rw [if_neg (Ne.symm h6), if_neg (Ne.symm h8), stampAt_of_ne h6 h8]

theorem length_stampVersion (seed : FixedBytes 16) : (stampVersion seed).length = 16 := by
  rw [stampVersion, List.length_modify, List.length_modify, seed.property]

/-- The byte of a draw at a place. -/
def byteAt (seed : FixedBytes 16) (i : Fin 16) : UInt8 := seed.val.get (i.cast seed.property.symm)

theorem getElem?_eq_byteAt (seed : FixedBytes 16) (i : Fin 16) : seed.val[i.val]? = some (byteAt seed i) :=
  List.getElem?_eq_getElem _

theorem getElem?_stampVersion_fin (seed : FixedBytes 16) (i : Fin 16) :
    (stampVersion seed)[i.val]? = some (stampAt i (byteAt seed i)) := by
  rw [getElem?_stampVersion, getElem?_eq_byteAt, Option.map_some]

/-- The upper half of the seventh byte is the version, whatever is drawn. -/
theorem mayStandAt_version (b : UInt8) : MayStandAt 14 (Hex.digit (stampAt 6 b >>> 4)) :=
  Bytes.forall_byte (motive := fun b => [Hex.digit (stampAt 6 b >>> 4)] = ascii "4") (by decide +kernel) b

/-- The upper half of the ninth byte is a variant, whatever is drawn. -/
theorem mayStandAt_variant (b : UInt8) : MayStandAt 19 (Hex.digit (stampAt 8 b >>> 4)) :=
  Bytes.forall_byte (motive := fun b => Hex.digit (stampAt 8 b >>> 4) ∈ ascii "89ab") (by decide +kernel) b

/-- **Every identifier has the form of one.** -/
theorem hasIdForm_newId (seed : FixedBytes 16) : hasIdForm (newId seed) = true :=
  hasIdForm_formatId (length_stampVersion seed) (getElem?_stampVersion_fin seed 6) (mayStandAt_version _)
    (getElem?_stampVersion_fin seed 8) (mayStandAt_variant _)

/-! ## What tells draws apart -/

/-- Without its dashes an identifier is the text of its bytes. -/
theorem filter_formatId (bytes : Bytes) : (formatId bytes).filter (· != Ascii.dash) = Hex.encode bytes := by
  have hencode : ∀ part, (Hex.encode part).filter (· != Ascii.dash) = Hex.encode part := by
    intro part
    apply List.filter_eq_self.mpr
    intro b hb
    refine bne_iff_ne.mpr fun hdash => ?_
    rw [hdash] at hb
    exact Hex.notMem_encode (by decide) part hb
  have hbytes : bytes.take 4 ++ ((bytes.drop 4).take 2 ++ ((bytes.drop 6).take 2
      ++ ((bytes.drop 8).take 2 ++ bytes.drop 10))) = bytes := by
    have hrest : ∀ i n, (bytes.drop i).take n ++ bytes.drop (i + n) = bytes.drop i := by
      intro i n
      rw [← List.drop_drop, List.take_append_drop]
    rw [hrest 8 2, hrest 6 2, hrest 4 2, List.take_append_drop]
  have hdash : (Ascii.dash != Ascii.dash) = false := rfl
  simp only [formatId, List.filter_append, List.filter_cons, hdash, hencode, ← Hex.encode_append,
    List.append_assoc, Bool.false_eq_true, if_false, hbytes]

theorem formatId_injective : Function.Injective formatId := by
  intro a b h
  apply Hex.encode_injective
  rw [← filter_formatId, ← filter_formatId, h]

/-- The bits of a draw that the version and the variant leave free: all but the upper four of the seventh byte and the
upper two of the ninth. A bit is given by the place of its byte and its own place in it, the lowest bit first. -/
def freeBits : Finset (Fin 16 × Fin 8) := Finset.univ.filter fun p => (p.1 = 6 → p.2 < 4) ∧ (p.1 = 8 → p.2 < 6)

/-- A bit of a draw. -/
def bitAt (seed : FixedBytes 16) (p : Fin 16 × Fin 8) : Bool := (byteAt seed p.1).toNat.testBit p.2

theorem card_freeBits : freeBits.card = 122 := by decide +kernel

/-- The free bits are those that are kept and not set. -/
theorem mem_freeBits_iff (i : Fin 16) (j : Fin 8) :
    (i, j) ∈ freeBits ↔ (mask i).toNat.testBit j = true ∧ (mark i).toNat.testBit j = false := by
  rw [freeBits, Finset.mem_filter, and_iff_right (Finset.mem_univ _)]
  revert i j
  decide +kernel

/-- **A free bit is as it was drawn, and any other one is the same in all identifiers.** -/
theorem testBit_stampAt (i : Fin 16) (j : Fin 8) (b : UInt8) :
    (stampAt i b).toNat.testBit j
      = if (i, j) ∈ freeBits then b.toNat.testBit j else (mark i).toNat.testBit j := by
  rw [stampAt, UInt8.toNat_or, UInt8.toNat_and, Nat.testBit_or, Nat.testBit_and]
  simp only [mem_freeBits_iff]
  cases (mask i).toNat.testBit j <;> cases (mark i).toNat.testBit j <;> simp

theorem eq_iff_testBit (a b : UInt8) : a = b ↔ ∀ j : Fin 8, a.toNat.testBit j = b.toNat.testBit j := by
  refine ⟨fun h j => by rw [h], fun h => UInt8.toNat_inj.mp (Nat.eq_of_testBit_eq fun j => ?_)⟩
  by_cases hj : j < 8
  · exact h ⟨j, hj⟩
  · -- a byte has no bits from the eighth on
    have hpow : 2 ^ 8 ≤ 2 ^ j := Nat.pow_le_pow_right (by decide) (Nat.not_lt.mp hj)
    rw [Nat.testBit_lt_two_pow (Nat.lt_of_lt_of_le a.toNat_lt hpow),
      Nat.testBit_lt_two_pow (Nat.lt_of_lt_of_le b.toNat_lt hpow)]

theorem stampAt_eq_iff (i : Fin 16) (a b : UInt8) :
    stampAt i a = stampAt i b ↔ ∀ j, (i, j) ∈ freeBits → a.toNat.testBit j = b.toNat.testBit j := by
  rw [eq_iff_testBit]
  apply forall_congr'
  intro j
  rw [testBit_stampAt, testBit_stampAt]
  by_cases hj : (i, j) ∈ freeBits
  · simp only [hj, if_true, true_imp_iff]
  · simp only [hj, if_false, false_imp_iff]

theorem stampVersion_eq_iff (a b : FixedBytes 16) :
    stampVersion a = stampVersion b ↔ ∀ i : Fin 16, stampAt i (byteAt a i) = stampAt i (byteAt b i) := by
  constructor
  · intro h i
    have hbyte := getElem?_stampVersion_fin a i
    rw [h, getElem?_stampVersion_fin] at hbyte
    exact (Option.some.inj hbyte).symm
  · intro h
    apply List.ext_getElem?
    intro i
    by_cases hi : i < 16
    · rw [getElem?_stampVersion_fin a ⟨i, hi⟩, getElem?_stampVersion_fin b ⟨i, hi⟩, h]
    · rw [List.getElem?_eq_none (length_stampVersion a ▸ Nat.not_lt.mp hi),
        List.getElem?_eq_none (length_stampVersion b ▸ Nat.not_lt.mp hi)]

/-- **Two draws give one identifier exactly when they agree on all free bits.** -/
theorem newId_eq_iff (a b : FixedBytes 16) : newId a = newId b ↔ ∀ p ∈ freeBits, bitAt a p = bitAt b p := by
  rw [newId, newId, formatId_injective.eq_iff, stampVersion_eq_iff]
  simp only [stampAt_eq_iff, Prod.forall]
  rfl

/-- **Identifiers have one layout and keep 122 bits.** Whatever the sixteen bytes are, the identifier has 36 characters:
dashes at the four places, a `4` for the version, one of `8`, `9`, `a` and `b` for the variant, and lower-case
hexadecimal digits at all places but those of the dashes. So there is never a bar or a zero byte in it. And two
draws give the same identifier if and only if they agree on each of the 122 bits that are left free. -/
theorem newId_layout_and_entropy (seed other : FixedBytes 16) :
    HasIdLayout (newId seed)
      ∧ Ascii.bar ∉ newId seed ∧ 0 ∉ newId seed
      ∧ freeBits.card = 122
      ∧ (newId seed = newId other ↔ ∀ p ∈ freeBits, bitAt seed p = bitAt other p) := by
  have hlayout := hasIdLayout_of_hasIdForm (hasIdForm_newId seed)
  have hzero : 0 ∉ newId seed := notMem_newId (by decide) (by decide) seed
  exact ⟨hlayout, bar_notMem_newId seed, hzero, card_freeBits, newId_eq_iff seed other⟩

/-- Draws that differ in the overwritten bits only: all bits set, and all but those. -/
example :
    let kept : FixedBytes 16 := ⟨List.replicate 6 0xff ++ [0x0f, 0xff, 0x3f] ++ List.replicate 7 0xff, rfl⟩
    newId (.replicate 16 0xff) = ascii "ffffffff-ffff-4fff-bfff-ffffffffffff"
      ∧ newId kept = newId (.replicate 16 0xff) := by decide

end SignedAudit.Record
