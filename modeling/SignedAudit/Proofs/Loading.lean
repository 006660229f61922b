import SignedAudit.Proofs.Delivery
import SignedAudit.Proofs.Opening

namespace SignedAudit

/-! # Loading a configuration

A configuration is loaded when one source of the secret is set, the least severity is one by name if it is asked
for, and the secret can be read. Otherwise the first obstacle, in this order, is the failure, and nothing else has
happened by then. The event that a secret is weak has no hashed field, so that nobody but a subscriber that fails
can stand in the way of its publication. -/

open Effect

/-- The names of severities. -/
def Severity.names : List Bytes :=
  [Bytes.ascii "debug", Bytes.ascii "info", Bytes.ascii "warning", Bytes.ascii "error", Bytes.ascii "critical"]

theorem Severity.isSome_ofName?_iff (text : Bytes) : (ofName? text).isSome = true ↔ text ∈ names := by
  rw [ofName?, List.find?_isSome]
  simp [all, names, name]

namespace Config

variable {env : Environment} {files : FileTree}

/-! ## Reading -/

/-- **Known**: no least severity is asked for, or one by its name. -/
def HasKnownSeverity (env : Environment) : Prop := ∀ text, env.logMinSeverity = some text → text ∈ Severity.names

theorem exists_minimum?_iff : (∃ minimum, minimum? env = .ok minimum) ↔ HasKnownSeverity env := by
  unfold minimum? HasKnownSeverity
  cases env.logMinSeverity with
  | none => simp
  | some text =>
      simp only [Option.some.injEq, forall_eq', ← Severity.isSome_ofName?_iff]
      cases Severity.ofName? text <;> simp

/-- Reading puts together what source, severity and secret come to. -/
theorem read_eq (env : Environment) (files : FileTree) :
    read env files =
      match source? env with
      | .error cause => .error cause
      | .ok source =>
        match minimum? env with
        | .error cause => .error cause
        | .ok minimum =>
          match source.read files with
          | .error cause => .error cause
          | .ok secret => .ok ({ secret, logFile := logFile? env, minimum }, source) := by
  unfold read
  cases source? env with
  | error cause => rfl
  | ok source =>
      simp only [bind, Except.bind]
      cases minimum? env with
      | error cause => rfl
      | ok minimum => cases source.read files <;> rfl

section

variable {s : System} (hquiet : ∀ x ∈ s.subscribers, x.failure? = none)

include hquiet

/-- Where no subscriber fails, loading comes to what the environment and the files come to. -/
theorem outcome_load (env : Environment) : ((load env).perform s).1 = loaded env s.files := by
  rw [perform_load_eq, System.objection?_eq_none hquiet]
  unfold loaded
  rcases read env s.files with cause | ⟨config, source⟩
  · rfl
  · dsimp only
    split <;> rfl

end

end Config

end SignedAudit
