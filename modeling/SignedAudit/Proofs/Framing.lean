import SignedAudit.Bytes

namespace SignedAudit

/-! # Where one text ends and the next begins

Two ways of putting texts one behind another so that they can be told apart again. A way of writing values
is self-delimiting when a written value shows by itself where it ends, whatever follows it. A text that is
joined by a delimiter falls into fields at every delimiter; a part that holds delimiters of its own falls
into several fields, and only the number of its delimiters tells how many. -/

/-! ## Self-delimiting writings -/

/-- **Self-delimiting**: what is written at the front of a text determines the value and the rest. -/
def SelfDelimiting {α : Type} (write : α → Bytes) : Prop :=
  ∀ ⦃a b : α⦄ ⦃x y : Bytes⦄, write a ++ x = write b ++ y → a = b ∧ x = y

namespace SelfDelimiting

variable {α : Type} {f : α → Bytes}

theorem injective (hf : SelfDelimiting f) : Function.Injective f := by
  intro a b h
  have h' : f a ++ [] = f b ++ [] := by rw [h]
  exact (hf h').1

end SelfDelimiting

/-! ## Fields between delimiters -/

namespace Bytes

/-- Two rows of texts that are joined one behind the other have one more separator between them. -/
theorem intercalate_append (separator : UInt8) {l m : List Bytes} (hl : l ≠ []) (hm : m ≠ []) :
    [separator].intercalate (l ++ m)
      = [separator].intercalate l ++ separator :: [separator].intercalate m := by
  induction l with
  | nil => exact absurd rfl hl
  | cons x l ih =>
      have hlm : l ++ m ≠ [] := List.append_ne_nil_of_right_ne_nil l hm
      rw [List.cons_append, List.intercalate_cons_of_ne_nil hlm]
      by_cases hnil : l = []
      · rw [hnil, List.nil_append, List.intercalate_singleton, List.append_assoc]
        rfl
      · rw [ih hnil, List.intercalate_cons_of_ne_nil hnil]
        simp only [List.append_assoc, List.cons_append, List.nil_append]

/-- The fields of a text, between one bar and the next. -/
def fields (text : Bytes) : List Bytes := text.splitOn Ascii.bar

theorem fields_ne_nil (text : Bytes) : fields text ≠ [] := List.splitOn_ne_nil _ _

/-- A bar ends the fields of what is before it and begins those of what is behind it. -/
theorem fields_append_bar (a b : Bytes) :
    fields (a ++ Ascii.bar :: b) = fields a ++ fields b :=
  List.splitOn_append_cons_self a b

/-- A text without a bar is one field. -/
theorem fields_of_notMem {text : Bytes} (h : Ascii.bar ∉ text) : fields text = [text] :=
  List.splitOn_eq_singleton h

theorem fields_injective : Function.Injective fields := by
  intro a b h
  have ha : [Ascii.bar].intercalate (fields a) = a := List.intercalate_splitOn _
  have hb : [Ascii.bar].intercalate (fields b) = b := List.intercalate_splitOn _
  rw [← ha, ← hb, h]

/-- There is one field more than there are bars. -/
theorem length_fields (text : Bytes) : (fields text).length = text.count Ascii.bar + 1 := by
  induction text with
  | nil => rfl
  | cons b rest ih =>
      unfold fields at ih ⊢
      rw [List.splitOn_cons_eq_if_modifyHead, List.count_cons]
      by_cases h : b = Ascii.bar
      · simp only [h, beq_self_eq_true, if_true, List.length_cons, ih]
      · have hb : (b == Ascii.bar) = false := beq_false_of_ne h
        simp only [hb, Bool.false_eq_true, if_false, List.length_modifyHead, ih, Nat.add_zero]

/-- A part that is known to hold the same number of bars on both sides can be split off the front. -/
theorem append_fields_inj {a b : Bytes} {u v : List Bytes}
    (h : fields a ++ u = fields b ++ v) (hcount : a.count Ascii.bar = b.count Ascii.bar) :
    a = b ∧ u = v := by
  have hl : (fields a).length = (fields b).length := by
    rw [length_fields, length_fields, hcount]
  obtain ⟨hab, huv⟩ := List.append_inj h hl
  exact ⟨fields_injective hab, huv⟩

/-- A field behind a bar, with what stands in front of it and behind it. -/
theorem exists_of_mem_tail_fields {text f : Bytes} (h : f ∈ (fields text).tail) :
    ∃ u v, text ++ [Ascii.bar] = u ++ Ascii.bar :: f ++ Ascii.bar :: v := by
  obtain ⟨first, others, hfields⟩ := List.exists_cons_of_ne_nil (fields_ne_nil text)
  have htext : [Ascii.bar].intercalate (fields text) = text := List.intercalate_splitOn _
  rw [hfields, List.tail_cons] at h
  obtain ⟨p, q, rfl⟩ := List.append_of_mem h
  rw [hfields, ← List.cons_append,
    intercalate_append _ (List.cons_ne_nil first p) (List.cons_ne_nil f q)] at htext
  refine ⟨[Ascii.bar].intercalate (first :: p), ?_⟩
  cases q with
  | nil =>
      refine ⟨[], ?_⟩
      rw [← htext, List.intercalate_singleton]
  | cons g q =>
      refine ⟨[Ascii.bar].intercalate (g :: q) ++ [Ascii.bar], ?_⟩
      rw [← htext, List.intercalate_cons_cons]
      simp only [List.append_assoc, List.cons_append, List.nil_append]

end Bytes

end SignedAudit
