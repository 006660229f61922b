import Mathlib.Data.List.Induction
import SignedAudit.Proofs.FileTree
import SignedAudit.Proofs.Refusal

namespace SignedAudit

/-! # The order of flags

An argument is taken for one flag, and changes the value of that flag and of no other one. So what arguments say is
what the last one for each flag says, and arguments for different flags may change places. A command looks at its
options only through these values; and an argument that is no flag ends a run before anything is looked at. -/

open Effect

/-! ## Arguments for a flag -/

namespace Flag

/-- Is an argument written for this flag? -/
def fits (f : Flag) (argument : Bytes) : Bool := f.spelling.isPrefixOf argument

theorem fits_iff (f : Flag) (argument : Bytes) : f.fits argument = true ↔ f.spelling <+: argument :=
  List.isPrefixOf_iff_prefix

/-- **An argument fits one flag at most.** -/
theorem eq_of_fits {f g : Flag} {argument : Bytes} (hf : f.fits argument = true) (hg : g.fits argument = true) :
    f = g :=
  eq_of_prefix_argument ((f.fits_iff argument).mp hf) ((g.fits_iff argument).mp hg)

/-- No spelling holds a zero byte, so that it does not matter what stands behind one. -/
theorem fits_untilZero (f : Flag) (argument : Bytes) : f.fits argument.untilZero = f.fits argument := by
  rw [Bool.eq_iff_iff, fits_iff, fits_iff]
  constructor
  · intro h
    exact h.trans (Bytes.untilZero_prefix_self argument)
  · rintro ⟨rest, rfl⟩
    rw [Bytes.untilZero_append f.zero_notMem_spelling]
    exact List.prefix_append _ _

/-- There is no value for a flag in an argument that is not written for it. -/
theorem valueIn?_untilZero_of_not_fits {f : Flag} {argument : Bytes} (h : f.fits argument = false) :
    f.valueIn? argument.untilZero = none := by
  rw [← fits_untilZero, fits] at h
  simp [valueIn?, h]

theorem isSome_valueIn?_untilZero {f : Flag} {argument : Bytes} (h : f.fits argument = true) :
    (f.valueIn? argument.untilZero).isSome = true := by
  rw [← fits_untilZero, fits] at h
  simp [valueIn?, h]

/-- Is an argument written for a flag at all? -/
def isGiven (argument : Bytes) : Bool := all.any (·.fits argument)

theorem isGiven_iff (argument : Bytes) : isGiven argument = true ↔ ∃ f : Flag, f.fits argument = true := by
  simp [isGiven, mem_all]

/-- What is written for a flag is read as one, and nothing else is. -/
theorem isSome_ofArgument?_untilZero (argument : Bytes) :
    (ofArgument? argument.untilZero).isSome = isGiven argument := by
  simp only [isGiven, ← fits_untilZero _ argument]
  rw [ofArgument?, List.isSome_findSome?]
  congr 1
  funext f
  rw [Option.isSome_map, valueIn?, fits]
  cases f.spelling.isPrefixOf argument.untilZero <;> rfl

end Flag

namespace Options

/-! ## What arguments say -/

theorem among_append (front rear : List Bytes) : among (front ++ rear) = among front ++ among rear := by
  simp [among]

theorem among_singleton (argument : Bytes) :
    among [argument] = (Flag.ofArgument? argument.untilZero).toList := by
  rw [among, List.map_singleton, List.filterMap_cons]
  cases Flag.ofArgument? argument.untilZero <;> rfl

/-- An argument says what the flag that it is written for finds in it. -/
theorem value?_among_singleton (argument : Bytes) (f : Flag) :
    (among [argument]).value? f = f.valueIn? argument.untilZero := by
  ext v
  rw [f.valueIn?_eq_some_iff, ← Flag.ofArgument?_eq_some_iff argument.untilZero (f, v), among_singleton]
  cases Flag.ofArgument? argument.untilZero with
  | none => simp [value?]
  | some x =>
      obtain ⟨g, w⟩ := x
      by_cases hg : f = g <;> simp [value?, lookup_cons_eq_ite, hg, eq_comm]

/-- **A further argument sets the value of its flag**, and leaves all others as they are. -/
theorem value?_among_concat (arguments : List Bytes) (argument : Bytes) (f : Flag) :
    (among (arguments ++ [argument])).value? f
      = (f.valueIn? argument.untilZero).or ((among arguments).value? f) := by
  rw [among_append, value?_append, value?_among_singleton]

/-- **What arguments say about a flag is what those for it say**, wherever the others stand. -/
theorem value?_among_filter (arguments : List Bytes) (f : Flag) :
    (among (arguments.filter f.fits)).value? f = (among arguments).value? f := by
  induction arguments using List.reverseRecOn with
  | nil => rfl
  | append_singleton arguments argument ih =>
      rw [List.filter_append, value?_among_concat, ← ih]
      cases hfits : f.fits argument with
      | true => rw [List.filter_cons_of_pos hfits, List.filter_nil, value?_among_concat]
      | false =>
          rw [List.filter_cons_of_neg (by simp [hfits]), List.filter_nil, List.append_nil,
            Flag.valueIn?_untilZero_of_not_fits hfits, Option.none_or]

/-- **An argument does not count in front of another one for its flag**, and for other flags it never does. -/
theorem value?_among_superseded {f : Flag} {argument later : Bytes} (hargument : f.fits argument = true)
    (hlater : f.fits later = true) (front mid rear : List Bytes) (g : Flag) :
    (among (front ++ argument :: (mid ++ later :: rear))).value? g
      = (among (front ++ (mid ++ later :: rear))).value? g := by
  have hcons : among (argument :: (mid ++ later :: rear)) = among [argument] ++ among (mid ++ later :: rear) :=
    among_append [argument] _
  rw [among_append, among_append, value?_append, value?_append, hcons, value?_append, value?_among_singleton]
  by_cases hg : g = f
  · -- the later argument has the last word, or one behind it
    obtain ⟨v, hv⟩ := Option.isSome_iff_exists.mp (Flag.isSome_valueIn?_untilZero hlater)
    have hsome : ((among (mid ++ later :: rear)).value? f).isSome = true := by
      rw [List.append_cons, among_append, value?_append, value?_among_concat, hv]
      simp
    obtain ⟨w, hw⟩ := Option.isSome_iff_exists.mp hsome
    rw [hg, hw, Option.some_or, Option.some_or]
  · have hother : g.fits argument = false := by
      rw [Bool.eq_false_iff]
      intro hfits
      exact hg (Flag.eq_of_fits hfits hargument)
    rw [Flag.valueIn?_untilZero_of_not_fits hother, Option.or_none]

/-- **Arguments are options unless one of them is no flag**, and then they are all options among them. -/
theorem ofArguments?_untilZero (arguments : List Bytes) :
    ofArguments? (arguments.map Bytes.untilZero)
      = if arguments.all Flag.isGiven then some (among arguments) else none := by
  induction arguments with
  | nil => rfl
  | cons argument rest ih =>
      have hcons : among (argument :: rest) = among [argument] ++ among rest := among_append [argument] rest
      have hgiven := Flag.isSome_ofArgument?_untilZero argument
      rw [List.map_cons, ofArguments?_cons, ih, List.all_cons, ← hgiven, hcons, among_singleton]
      cases Flag.ofArgument? argument.untilZero with
      | none => rfl
      | some x => cases rest.all Flag.isGiven <;> rfl

end Options

/-! ## Commands look at the values only -/

/-- What a command comes to is a matter of what its options say. -/
theorem Command.decision?_congr {o p : Options} (h : ∀ f, o.value? f = p.value? f) (c : Command) (now : Instant)
    (files : FileTree) : c.decision? now files o = c.decision? now files p := by
  have hvalues : o.value? = p.value? := funext h
  cases c <;> simp only [decision?, decisionOn?, occasion?, payload?, receiptTime?, hvalues]

namespace Invocation

variable (name : Bytes) (env : Environment) (nonce : Nonce) (s : System)

/-- **A run looks at what its arguments say only**: if two lists both hold an argument that is no flag, or both do
not, and they say the same about every flag, all comes to the same. -/
theorem run_congr {arguments arguments' : List Bytes}
    (hflags : arguments.all Flag.isGiven = arguments'.all Flag.isGiven)
    (hvalues : ∀ f, (Options.among arguments).value? f = (Options.among arguments').value? f) :
    run ⟨name :: arguments, env, nonce⟩ s = run ⟨name :: arguments', env, nonce⟩ s := by
  have hdecision : ∀ now files,
      decision? (zeroTerminated ⟨name :: arguments, env, nonce⟩) now files
        = decision? (zeroTerminated ⟨name :: arguments', env, nonce⟩) now files := by
    intro now files
    simp only [decision?, command?, zeroTerminated, List.map_cons, Options.ofArguments?_untilZero, hflags]
    cases arguments'.all Flag.isGiven with
    | false => rfl
    | true =>
        cases Command.ofName? name.untilZero with
        | none => rfl
        | some c => exact c.decision?_congr hvalues now files
  unfold run
  rw [perform_act, perform_act, hdecision]
  -- what is left to do of a decision depends on the environment and the nonce
  rfl

/-- **An argument that is no flag ends every run** with the description of the commands, and nothing is touched. -/
theorem run_of_not_fits {arguments : List Bytes} {argument : Bytes} (hmem : argument ∈ arguments)
    (h : Flag.isGiven argument = false) : run ⟨name :: arguments, env, nonce⟩ s = (.usage, s) := by
  have hall : arguments.all Flag.isGiven = false := List.all_eq_false.mpr ⟨argument, hmem, by simp [h]⟩
  have hread : Options.ofArguments? (arguments.map Bytes.untilZero) = none := by
    rw [Options.ofArguments?_untilZero, hall]
    rfl
  have hact : (zeroTerminated ⟨name :: arguments, env, nonce⟩).act = pure .usage := by
    simp only [act, zeroTerminated, List.map_cons, hread]
  rw [run, hact]
  rfl

/-- **The order of flags is irrelevant, and the last value wins.** No argument begins with two of the flags. Whatever
stands in front of the arguments as the command, and whatever the environment, the nonce and the system are, two runs
end with the same reply in the same system if one's arguments are the other's in another order, with those for each
flag in the order that they had; and also if an argument is left out that is followed by one for the same flag. A run
with an argument among the others that begins with no flag ends with the description of the commands and exit code 2,
and leaves the system as it was. -/
theorem flag_order_irrelevant :
    (∀ (argument : Bytes) (f g : Flag), f.spelling <+: argument → g.spelling <+: argument → f = g)
      ∧ (∀ arguments arguments' : List Bytes, arguments.Perm arguments' →
        (∀ f : Flag, arguments.filter f.fits = arguments'.filter f.fits) →
          run ⟨name :: arguments, env, nonce⟩ s = run ⟨name :: arguments', env, nonce⟩ s)
      ∧ (∀ (f : Flag) (front mid rear : List Bytes) (argument later : Bytes),
        f.spelling <+: argument → f.spelling <+: later →
          run ⟨name :: (front ++ argument :: (mid ++ later :: rear)), env, nonce⟩ s
            = run ⟨name :: (front ++ (mid ++ later :: rear)), env, nonce⟩ s)
      ∧ ∀ (front rear : List Bytes) (argument : Bytes), (∀ f : Flag, ¬ f.spelling <+: argument) →
        run ⟨name :: (front ++ argument :: rear), env, nonce⟩ s
          = ({ exit := 2, output := Reply.usageText }, s) := by
  refine ⟨fun _ _ _ => Flag.eq_of_prefix_argument, ?_, ?_, ?_⟩
  · intro arguments arguments' hperm hsame
    apply run_congr
    · rw [Bool.eq_iff_iff, List.all_eq_true, List.all_eq_true]
      simp only [hperm.mem_iff]
    · intro f
      rw [← Options.value?_among_filter arguments, hsame, Options.value?_among_filter]
  · intro f front mid rear argument later hargument hlater
    rw [← Flag.fits_iff] at hargument hlater
    apply run_congr
    · -- what is left out is a flag, and so it is not an argument that is none
      have hgiven : Flag.isGiven argument = true := (Flag.isGiven_iff argument).mpr ⟨f, hargument⟩
      simp only [List.all_append, List.all_cons, hgiven, Bool.true_and]
    · exact Options.value?_among_superseded hargument hlater front mid rear
  · intro front rear argument hnone
    apply run_of_not_fits name env nonce s (List.mem_append_right front List.mem_cons_self)
    rw [Bool.eq_false_iff, ne_eq, Flag.isGiven_iff]
    rintro ⟨f, hfits⟩
    exact hnone f ((f.fits_iff argument).mp hfits)

/-- An identifier, a payload file, and another identifier. -/
def repeatedArguments : List Bytes :=
  [Bytes.ascii "--event-id=a", Bytes.ascii "--payload-file=body", Bytes.ascii "--event-id=b"]

/-- The payload file may come first and the first identifier may be left out, but a flag without a value ends the
run. -/
theorem flag_order_irrelevant_repeated :
    run ⟨Command.sign.name :: repeatedArguments, {}, .zero 16⟩ {}
        = run ⟨[Command.sign.name, Bytes.ascii "--payload-file=body", Bytes.ascii "--event-id=a",
          Bytes.ascii "--event-id=b"], {}, .zero 16⟩ {}
      ∧ run ⟨Command.sign.name :: repeatedArguments, {}, .zero 16⟩ {}
        = run ⟨[Command.sign.name, Bytes.ascii "--payload-file=body", Bytes.ascii "--event-id=b"], {},
          .zero 16⟩ {}
      ∧ run ⟨Command.sign.name :: (repeatedArguments ++ [Bytes.ascii "--payload"]), {}, .zero 16⟩ {}
        = ({ exit := 2, output := Reply.usageText }, {}) := by
  obtain ⟨-, hreorder, hleaveOut, hnoFlag⟩ := flag_order_irrelevant Command.sign.name {} (.zero 16) {}
  refine ⟨?_, ?_, ?_⟩
  · apply hreorder
    · exact List.Perm.swap _ _ _
    · intro f
      cases f <;> decide
  · exact hleaveOut .eventId [] [Bytes.ascii "--payload-file=body"] [] _ _ (by decide) (by decide)
  · apply hnoFlag repeatedArguments []
    intro f
    cases f <;> decide

end Invocation

end SignedAudit
