import SignedAudit.System

namespace SignedAudit

/-! # Effects

An `Effect` reads and changes the system and may fail; what it did before it failed stays done. An effect is
understood by what it performs from a system: its outcome and the system afterwards. The lemmas below say
so for each way of building one. -/

/-- A computation over the system that may fail. -/
abbrev Effect := ExceptT Failure (StateM System)

namespace Effect

variable {α β : Type}

/-- The outcome of an effect and the system after it. -/
def perform (effect : Effect α) (s : System) : Except Failure α × System := effect s

/-- The outcome of an effect, failures included, as a result. -/
def attempt (effect : Effect α) : Effect (Except Failure α) := fun s =>
  let (outcome, s) := effect s
  (.ok outcome, s)

/-- An outcome that is already known. -/
def ofExcept (outcome : Except Failure α) : Effect α := fun s => (outcome, s)

/-- Asks the provider of the system. -/
def consult (ask : Provider → Consultation α) : Effect α := fun s =>
  let (outcome, calls) := ask s.provider s.calls
  (outcome, { s with calls })

/-- Appends a text to what a sink holds. -/
def write (sink : Sink) (text : Bytes) : Effect Unit := modify (·.write sink text)

/-! ## What is performed -/

@[simp] theorem perform_pure (a : α) (s : System) : (pure a : Effect α).perform s = (.ok a, s) := rfl

@[simp] theorem perform_bind (x : Effect α) (f : α → Effect β) (s : System) :
    (x >>= f).perform s =
      match x.perform s with
      | (.ok a, t) => (f a).perform t
      | (.error e, t) => (.error e, t) := by
  simp only [perform, bind, ExceptT.bind, StateT.bind, ExceptT.mk, ExceptT.bindCont]
  rcases x s with ⟨r, t⟩
  cases r <;> rfl

/-- After a success the rest is performed from the system that it left. -/
theorem perform_bind_of_ok {x : Effect α} {s : System} {a : α} (h : (x.perform s).1 = .ok a)
    (f : α → Effect β) : (x >>= f).perform s = (f a).perform (x.perform s).2 := by
  rw [perform_bind]
  generalize x.perform s = performed at h
  obtain ⟨outcome, t⟩ := performed
  cases h
  rfl

/-- After a failure the rest is not performed. -/
theorem perform_bind_of_error {x : Effect α} {s : System} {e : Failure} (h : (x.perform s).1 = .error e)
    (f : α → Effect β) : (x >>= f).perform s = (.error e, (x.perform s).2) := by
  rw [perform_bind]
  generalize x.perform s = performed at h
  obtain ⟨outcome, t⟩ := performed
  cases h
  rfl

@[simp] theorem perform_throw (e : Failure) (s : System) :
    (throw e : Effect α).perform s = (.error e, s) := rfl

@[simp] theorem perform_get (s : System) : (get : Effect System).perform s = (.ok s, s) := rfl

@[simp] theorem perform_set (s t : System) : (set t : Effect Unit).perform s = (.ok (), t) := rfl

@[simp] theorem perform_modify (f : System → System) (s : System) :
    (modify f : Effect Unit).perform s = (.ok (), f s) := rfl

@[simp] theorem perform_attempt (x : Effect α) (s : System) :
    x.attempt.perform s = (.ok (x.perform s).1, (x.perform s).2) := rfl

@[simp] theorem perform_ofExcept (outcome : Except Failure α) (s : System) :
    (ofExcept outcome).perform s = (outcome, s) := rfl

@[simp] theorem perform_consult (ask : Provider → Consultation α) (s : System) :
    (consult ask).perform s =
      ((ask s.provider s.calls).1, { s with calls := (ask s.provider s.calls).2 }) := rfl

@[simp] theorem perform_write (sink : Sink) (text : Bytes) (s : System) :
    (write sink text).perform s = (.ok (), s.write sink text) := rfl

end Effect

end SignedAudit
