import SignedAudit.Command

namespace SignedAudit

/-! # Arguments and the flags they are

An argument is a flag with a value exactly when it is the spelling of the flag with the value behind it:
no spelling begins like another one up to its end, so there is never a choice. A list of arguments is
read as options exactly when it is the writing of these options, one behind the other. -/

namespace Bytes

/-- A part without a zero byte is read to its end. -/
theorem untilZero_append {front : Bytes} (h : 0 ∉ front) (rest : Bytes) :
    (front ++ rest).untilZero = front ++ rest.untilZero := by
  apply List.takeWhile_append_of_pos
  intro b hb
  rw [bne_iff_ne]
  rintro rfl
  exact h hb

theorem untilZero_eq_self {b : Bytes} (h : 0 ∉ b) : b.untilZero = b := by
  have hall : (b ++ []).untilZero = b ++ [] := untilZero_append h []
  rwa [List.append_nil] at hall

theorem untilZero_prefix_self (b : Bytes) : b.untilZero <+: b := List.takeWhile_prefix _

end Bytes

namespace Flag

/-- An option as an argument. -/
def write (x : Flag × Bytes) : Bytes := x.1.spelling ++ x.2

theorem mem_all (f : Flag) : f ∈ all := by cases f <;> decide

theorem zero_notMem_spelling (f : Flag) : 0 ∉ f.spelling := by cases f <;> decide

theorem untilZero_write (f : Flag) (v : Bytes) : (write (f, v)).untilZero = write (f, v.untilZero) :=
  Bytes.untilZero_append f.zero_notMem_spelling v

/-- No spelling begins with another one. -/
theorem eq_of_prefix_spelling {f g : Flag} (h : f.spelling <+: g.spelling) : f = g := by
  revert h
  cases f <;> cases g <;> decide

/-- An argument begins with one spelling at most. -/
theorem eq_of_prefix_argument {f g : Flag} {argument : Bytes} (hf : f.spelling <+: argument)
    (hg : g.spelling <+: argument) : f = g := by
  obtain hfg | hgf := List.prefix_or_prefix_of_prefix hf hg
  · exact eq_of_prefix_spelling hfg
  · exact (eq_of_prefix_spelling hgf).symm

theorem not_prefix_write {f : Flag} {x : Flag × Bytes} (h : f ≠ x.1) : ¬ f.spelling <+: write x := by
  intro hf
  exact h (eq_of_prefix_argument hf (List.prefix_append x.1.spelling x.2))

theorem valueIn?_eq_some_iff (f : Flag) (argument v : Bytes) :
    f.valueIn? argument = some v ↔ argument = write (f, v) := by
  unfold valueIn? write
  constructor
  · intro h
    split at h
    · next hprefix =>
        obtain ⟨rest, rfl⟩ := List.isPrefixOf_iff_prefix.mp hprefix
        rw [List.drop_left] at h
        rw [Option.some.inj h]
    · cases h
  · rintro rfl
    rw [if_pos (List.isPrefixOf_iff_prefix.mpr (List.prefix_append _ _)), List.drop_left]

/-- **What is read is what was written.** -/
theorem ofArgument?_eq_some_iff (argument : Bytes) (x : Flag × Bytes) :
    ofArgument? argument = some x ↔ argument = write x := by
  -- whatever flag is found, the argument is written for it
  have hread : ∀ y, ofArgument? argument = some y → argument = write y := by
    intro y h
    obtain ⟨f, -, hf⟩ := List.exists_of_findSome?_eq_some h
    obtain ⟨v, hv, rfl⟩ := Option.map_eq_some_iff.mp hf
    exact (f.valueIn?_eq_some_iff argument v).mp hv
  refine ⟨hread x, ?_⟩
  rintro rfl
  cases hfound : ofArgument? (write x) with
  | none =>
      have hmissed := List.findSome?_eq_none_iff.mp hfound x.1 (mem_all x.1)
      rw [(x.1.valueIn?_eq_some_iff (write x) x.2).mpr rfl] at hmissed
      cases hmissed
  | some y =>
      -- the two writings are one argument, so the flags agree, and then the values
      have hwrite : x.1.spelling ++ x.2 = y.1.spelling ++ y.2 := hread y hfound
      have hflag : x.1 = y.1 := eq_of_prefix_argument ⟨x.2, rfl⟩ ⟨y.2, hwrite.symm⟩
      rw [hflag] at hwrite
      exact congrArg some (Prod.ext hflag (List.append_cancel_left hwrite)).symm

theorem ofArgument?_write (x : Flag × Bytes) : ofArgument? (write x) = some x :=
  (ofArgument?_eq_some_iff (write x) x).mpr rfl

end Flag

namespace Options

/-! ## Rows of options -/

theorem ofArguments?_cons (argument : Bytes) (rest : List Bytes) :
    ofArguments? (argument :: rest) =
      (Flag.ofArgument? argument).bind fun x => (ofArguments? rest).map fun o => x :: o := by
  unfold ofArguments?
  rw [List.mapM_cons]
  cases Flag.ofArgument? argument with
  | none => rfl
  | some x => cases rest.mapM Flag.ofArgument? <;> rfl

/-- **Arguments are options exactly when they are the writing of these options.** -/
theorem ofArguments?_eq_some_iff (arguments : List Bytes) (o : Options) :
    ofArguments? arguments = some o ↔ arguments = o.map Flag.write := by
  induction arguments generalizing o with
  | nil => cases o <;> simp [ofArguments?]
  | cons argument rest ih =>
      rw [ofArguments?_cons]
      simp only [Option.bind_eq_some_iff, Option.map_eq_some_iff, Flag.ofArgument?_eq_some_iff, ih]
      constructor
      · rintro ⟨x, rfl, o, rfl, rfl⟩
        rfl
      · intro h
        cases o with
        | nil => cases h
        | cons x o =>
            obtain ⟨hx, ho⟩ := List.cons.inj h
            exact ⟨x, hx, o, ho, rfl⟩

/-- The options among arguments, as a run reads them, whatever else is among them. -/
def among (arguments : List Bytes) : Options := (arguments.map Bytes.untilZero).filterMap Flag.ofArgument?

theorem among_eq_of_ofArguments? {arguments : List Bytes} {o : Options}
    (h : ofArguments? (arguments.map Bytes.untilZero) = some o) : among arguments = o := by
  rw [among, (ofArguments?_eq_some_iff _ o).mp h, List.filterMap_map]
  have hread : Flag.ofArgument? ∘ Flag.write = some := funext Flag.ofArgument?_write
  rw [hread, List.filterMap_some]

/-- Options whose values hold no zero byte are read back from their writing. -/
theorem ofArguments?_write {o : Options} (h : ∀ x ∈ o, 0 ∉ x.2) :
    ofArguments? ((o.map Flag.write).map Bytes.untilZero) = some o := by
  have hself : ∀ x ∈ o, (Flag.write x).untilZero = Flag.write x := by
    intro x hx
    rw [Flag.untilZero_write, Bytes.untilZero_eq_self (h x hx)]
  rw [ofArguments?_eq_some_iff, List.map_map]
  exact List.map_congr_left hself

/-- Arguments around one option are options if those before and those behind it are. -/
theorem ofArguments?_insert (front rear : List Bytes) (x : Flag × Bytes) :
    ofArguments? (front ++ Flag.write x :: rear) =
      (ofArguments? front).bind fun o => (ofArguments? rear).map fun p => o ++ x :: p := by
  induction front with
  | nil =>
      rw [List.nil_append, ofArguments?_cons, Flag.ofArgument?_write]
      rfl
  | cons argument front ih =>
      rw [List.cons_append, ofArguments?_cons, ofArguments?_cons, ih]
      cases Flag.ofArgument? argument with
      | none => rfl
      | some y => cases ofArguments? front <;> cases ofArguments? rear <;> rfl

/-- A flag that no argument begins with is not among the options. -/
theorem ne_of_ofArguments? {arguments : List Bytes} {o : Options} {f : Flag}
    (h : ofArguments? (arguments.map Bytes.untilZero) = some o)
    (habsent : ∀ argument ∈ arguments, ¬ f.spelling <+: argument) : ∀ x ∈ o, x.1 ≠ f := by
  rintro x hx rfl
  have hwritten : Flag.write x ∈ arguments.map Bytes.untilZero := by
    rw [(ofArguments?_eq_some_iff _ o).mp h]
    exact List.mem_map_of_mem hx
  obtain ⟨argument, hargument, hread⟩ := List.mem_map.mp hwritten
  apply habsent argument hargument
  have hspelling : x.1.spelling <+: Flag.write x := List.prefix_append _ _
  rw [← hread] at hspelling
  exact hspelling.trans (Bytes.untilZero_prefix_self argument)

/-! ## The last value of a flag -/

theorem value?_append (o p : Options) (f : Flag) : (o ++ p).value? f = (p.value? f).or (o.value? f) := by
  unfold value?
  rw [List.reverse_append, List.lookup_append]

theorem value?_eq_none_iff (o : Options) (f : Flag) : o.value? f = none ↔ ∀ x ∈ o, x.1 ≠ f := by
  unfold value?
  rw [List.lookup_eq_none_iff]
  simp only [List.mem_reverse, bne_iff_ne]
  exact forall₂_congr fun x _ => ne_comm

/-- An option does not count for another flag. -/
theorem value?_insert_of_ne {f g : Flag} (h : g ≠ f) (v : Bytes) (o p : Options) :
    (o ++ (g, v) :: p).value? f = (o ++ p).value? f := by
  have hother : value? [(g, v)] f = none := by
    rw [value?_eq_none_iff]
    intro x hx
    rw [List.mem_singleton.mp hx]
    exact h
  rw [List.append_cons, value?_append, value?_append, hother, Option.none_or, ← value?_append]

/-- The only option for a flag counts. -/
theorem value?_insert_self {o p : Options} {f : Flag} (h : ∀ x ∈ o ++ p, x.1 ≠ f) (v : Bytes) :
    (o ++ (f, v) :: p).value? f = some v := by
  have hp : p.value? f = none :=
    (value?_eq_none_iff p f).mpr fun x hx => h x (List.mem_append_right o hx)
  have hself : value? [(f, v)] f = some v := by
    show List.lookup f [(f, v)] = some v
    rw [List.lookup_cons_self]
  rw [List.append_cons, value?_append, value?_append, hp, hself, Option.none_or, Option.some_or]

end Options

end SignedAudit
