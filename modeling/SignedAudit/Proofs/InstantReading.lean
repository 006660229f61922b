import SignedAudit.Command
import SignedAudit.Proofs.InstantWords

namespace SignedAudit

/-! # Reading instants

A text is read as an instant exactly when it is a written instant, and then as the one it denotes; every other
text is a fault of validation with the code for malformed instants. No number on the way needs more than a
signed word of 64 bits. -/

open Effect

namespace Instant

/-- A reading that does not come to an instant is a fault of the text. -/
theorem perform_readInstant (text : Bytes) (s : System) :
    (Command.readInstant text).perform s =
      match parse text with
      | .ok t => (.ok t, s)
      | .error defect => (.error (Cause.malformedTimestamp text defect).failure, s) := by
  unfold Command.readInstant
  cases parse text <;> rfl

/-- **The grammar decides**: reading comes to an instant exactly for written instants, and then to the one
that is denoted; in words of 64 bits it comes to the same, as nothing overflows on the way; and for every
other text reading fails with a fault of validation that has the code for malformed instants and quotes
the text. -/
theorem readInstant_follows_grammar (text : Bytes) (s : System) :
    (∀ ns, (∃ t, (Command.readInstant text).perform s = (.ok t, s) ∧ t.ns = ns)
        ↔ ∃ w : Written, w.text = text ∧ w.Denotes ns)
      ∧ (parseInWords text).run = some (parse text)
      ∧ ((¬ ∃ w : Written, ∃ ns, w.text = text ∧ w.Denotes ns) →
        ∃ defect fault, (Command.readInstant text).perform s = (.error (.fault fault), s)
          ∧ fault = (Cause.malformedTimestamp text defect).fault
          ∧ fault.domain = .validation ∧ fault.code = 0x401) := by
  have hread := perform_readInstant text s
  refine ⟨?_, yields_parseInWords text, ?_⟩
  · intro ns
    rw [← parse_eq_ok_iff]
    constructor
    · rintro ⟨t, hperform, hns⟩
      cases hparse : parse text with
      | ok u =>
          rw [hread, hparse] at hperform
          obtain ⟨hu, -⟩ := Prod.mk.inj hperform
          exact ⟨u, rfl, by rw [Except.ok.inj hu, hns]⟩
      | error defect =>
          rw [hread, hparse] at hperform
          obtain ⟨hu, -⟩ := Prod.mk.inj hperform
          cases hu
    · rintro ⟨t, hparse, hns⟩
      refine ⟨t, ?_, hns⟩
      rw [hread, hparse]
  · intro hforeign
    cases hparse : parse text with
    | ok t =>
        obtain ⟨w, htext, hdenotes⟩ := (parse_eq_ok_iff text t.ns).mp ⟨t, hparse, rfl⟩
        exact absurd ⟨w, t.ns, htext, hdenotes⟩ hforeign
    | error defect =>
        refine ⟨defect, _, ?_, rfl, rfl, rfl⟩
        rw [hread, hparse]
        rfl

/-- The last second of the leap day of the year 2000, half past it, an hour and a half ahead of UTC. -/
def leapDayEvening : Written where
  clock := ⟨.ofNat 4 2000, .ofNat 2 2, .ofNat 2 29, .ofNat 2 23, .ofNat 2 59, .ofNat 2 59⟩
  fraction := some ⟨1, by decide, by decide, .ofNat 1 5⟩
  zone := .ahead (.ofNat 2 1) (.ofNat 2 30)

/-- The evening of a leap day is read, and the thirtieth of the same month is not. -/
theorem readInstant_follows_grammar_leap_day :
    (∃ t, (Command.readInstant (Bytes.ascii "2000-02-29T23:59:59.5+01:30")).perform {} = (.ok t, {})
        ∧ t.ns = 951863399500000000)
      ∧ ∃ fault, (Command.readInstant (Bytes.ascii "2000-02-30T23:59:59Z")).perform {}
          = (.error (.fault fault), {}) ∧ fault.domain = .validation ∧ fault.code = 0x401 := by
  constructor
  · rw [(readInstant_follows_grammar (Bytes.ascii "2000-02-29T23:59:59.5+01:30") {}).1]
    refine ⟨leapDayEvening, by decide, ⟨by decide, by decide, by decide, by decide, by decide, by decide⟩,
      leapDayEvening.clock.date.dayNumber, ?_, by decide, by decide, by decide⟩
    exact (Date.hasNumber_iff _ _).mpr ⟨by decide, rfl⟩
  · have hforeign : ¬ ∃ w : Written, ∃ ns, w.text = Bytes.ascii "2000-02-30T23:59:59Z" ∧ w.Denotes ns := by
      rintro ⟨w, ns, htext, hdenotes⟩
      obtain ⟨t, hparse, -⟩ := (parse_eq_ok_iff _ ns).mpr ⟨w, htext, hdenotes⟩
      have hdate : parse (Bytes.ascii "2000-02-30T23:59:59Z") = .error .date := by rfl
      rw [hdate] at hparse
      cases hparse
    obtain ⟨-, -, hfault⟩ := readInstant_follows_grammar (Bytes.ascii "2000-02-30T23:59:59Z") {}
    obtain ⟨defect, fault, hperform, -, hdomain, hcode⟩ := hfault hforeign
    exact ⟨fault, hperform, hdomain, hcode⟩

end Instant

end SignedAudit
