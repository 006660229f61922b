import SignedAudit.Proofs.Loading

namespace SignedAudit

/-! # Secrets in files

A secret stands in a file as it is, or with a line end behind it, LF or CR LF, that does not belong to it. A file is
read to its end whatever its length is, and then it configures what the secret itself would, set as a variable: the
configuration is the same, and so is what is reported, apart from the name of the variable. -/

open Effect

/-- **Events that differ in the source at most**: their fields are the same, but for the value of `source`. -/
structure Event.SameButSource (e e' : Event) : Prop where
  category : e.category = e'.category
  severity : e.severity = e'.severity
  id : e.id = e'.id
  message : e.message = e'.message
  fields : List.Forall₂ (fun f f' : Field => f' = { f with value := f'.value }
    ∧ (f.key ≠ Bytes.ascii "source" → f' = f)) e.fields e'.fields

namespace Config

/-! ## Line ends -/

/-- **A secret is stored as a content**: as it is if no line ends behind it, else with a line end of its own. A secret
that ends in a carriage return needs another one in front of the newline. -/
def IsStoredAs (secret content : Bytes) : Prop :=
  (content = secret ∧ content.getLast? ≠ some Ascii.newline)
    ∨ content = secret ++ [Ascii.carriageReturn, Ascii.newline]
    ∨ (content = secret ++ [Ascii.newline] ∧ secret.getLast? ≠ some Ascii.carriageReturn)

/-- What is stored as a content is read from it. -/
theorem dropLineEnd_of_isStoredAs {secret content : Bytes} (h : IsStoredAs secret content) :
    dropLineEnd content = secret := by
  rcases h with ⟨rfl, hline⟩ | rfl | ⟨rfl, hreturn⟩
  · rw [dropLineEnd, if_neg hline]
  · exact dropLineEnd_append secret
  · rw [dropLineEnd_concat, if_neg hreturn]

/-- What is read from a content is stored as it. -/
theorem isStoredAs_dropLineEnd (content : Bytes) : IsStoredAs (dropLineEnd content) content := by
  by_cases hline : content.getLast? = some Ascii.newline
  · obtain ⟨front, rfl⟩ := List.getLast?_eq_some_iff.mp hline
    rw [dropLineEnd_concat]
    by_cases hreturn : front.getLast? = some Ascii.carriageReturn
    · obtain ⟨body, rfl⟩ := List.getLast?_eq_some_iff.mp hreturn
      rw [if_pos hreturn, List.dropLast_concat]
      exact .inr (.inl (List.append_cons body _ _).symm)
    · rw [if_neg hreturn]
      exact .inr (.inr ⟨rfl, hreturn⟩)
  · rw [dropLineEnd, if_neg hline]
    exact .inl ⟨rfl, hline⟩

/-- **The secret in a file is the one that is stored as its content.** -/
theorem dropLineEnd_eq_iff (content secret : Bytes) : dropLineEnd content = secret ↔ IsStoredAs secret content := by
  constructor
  · rintro rfl
    exact isStoredAs_dropLineEnd content
  · exact dropLineEnd_of_isStoredAs

/-! ## The same secret from a file and from a variable -/

/-- An environment with the secret in a file. -/
def withFile (env : Environment) (path : Bytes) : Environment := { env with secret := none, secretFile := some path }

/-- An environment with the secret in a variable. -/
def withSecret (env : Environment) (secret : Bytes) : Environment :=
  { env with secret := some secret, secretFile := none }

theorem read_withSecret (env : Environment) (files : FileTree) (secret : Bytes) :
    read (withSecret env secret) files =
      (minimum? env).map fun minimum => (⟨secret, logFile? env, minimum⟩, .inline secret) := by
  have hsource : source? (withSecret env secret) = .ok (.inline secret) := rfl
  have hminimum : minimum? (withSecret env secret) = minimum? env := rfl
  rw [read_eq, hsource, hminimum]
  cases minimum? env <;> rfl

theorem read_withFile (env : Environment) {files : FileTree} {path content : Bytes}
    (h : files.read path.untilZero = .ok content) :
    read (withFile env path) files =
      (minimum? env).map fun minimum => (⟨dropLineEnd content, logFile? env, minimum⟩, .file path) := by
  have hsource : source? (withFile env path) = .ok (.file path) := rfl
  have hminimum : minimum? (withFile env path) = minimum? env := rfl
  have hsecret : (Source.file path).read files = .ok (dropLineEnd content) := by rw [Source.read_file, h]
  rw [read_eq, hsource, hminimum]
  simp only [hsecret]
  cases minimum? env <;> rfl

theorem sameButSource_weakEvent (source source' : Source) (keyBytes : Nat) :
    (weakEvent source keyBytes).SameButSource (weakEvent source' keyBytes) := by
  refine ⟨rfl, rfl, rfl, rfl, ?_⟩
  refine .cons ⟨rfl, fun hkey => absurd rfl hkey⟩ (.cons ⟨rfl, fun _ => rfl⟩ .nil)

/-- **A secret from a file is loaded like the secret itself**: the outcome is the same, and if the secret is reported
to be weak, then with both and with the same event but for the source. -/
theorem load_withFile {s : System} {path content secret : Bytes} (hread : s.files.read path.untilZero = .ok content)
    (hstored : IsStoredAs secret content) (env : Environment) :
    ((load (withFile env path)).perform s).1 = ((load (withSecret env secret)).perform s).1
      ∧ ((((load (withFile env path)).perform s).2 = s ∧ ((load (withSecret env secret)).perform s).2 = s)
        ∨ ∃ e e' : Event, e.id = Bytes.ascii "weak_audit_secret" ∧ e.SameButSource e'
          ∧ ((load (withFile env path)).perform s).2 = ((Bus.publish e).perform s).2
          ∧ ((load (withSecret env secret)).perform s).2 = ((Bus.publish e').perform s).2) := by
  have hfile := read_withFile env hread
  have hinline := read_withSecret env s.files secret
  rw [dropLineEnd_of_isStoredAs hstored] at hfile
  rw [perform_load_eq, perform_load_eq, hfile, hinline]
  cases minimum? env with
  | error cause => exact ⟨rfl, .inl ⟨rfl, rfl⟩⟩
  | ok minimum =>
      dsimp only [Except.map]
      by_cases hweak : isWeak secret = true
      · rw [if_pos hweak, if_pos hweak]
        exact ⟨rfl, .inr ⟨weakEvent (.file path) secret.length, weakEvent (.inline secret) secret.length, rfl,
          sameButSource_weakEvent _ _ _, rfl, rfl⟩⟩
      · rw [if_neg hweak, if_neg hweak]
        exact ⟨rfl, .inl ⟨rfl, rfl⟩⟩

/-- **A secret file stands for its secret.** For every file that can be read, reading it in pieces of 256 bytes comes to
an end, after as many pieces as its length takes, and the pieces are its content, as they are for any other size.
With a least severity that is known or not asked for, and no subscriber that fails, the file yields exactly the
secret that is stored as its content. And with this secret as a variable instead of the file, loading comes to the
same configuration or failure, and reports that the secret is weak in both cases or in neither, with one event that
differs in its source at most. -/
theorem secret_file_stands_for_secret {s : System} {path content : Bytes}
    (hread : s.files.read path.untilZero = .ok content) (env : Environment) :
    (∃ reader pieces last, s.files.openRead path.untilZero = .ok reader
        ∧ FileReader.Reads 256 reader pieces last ∧ pieces.flatten = content
        ∧ pieces.length = (content.length + 255) / 256)
      ∧ (∀ (size : Nat) (hsize : 0 < size), s.files.readInPieces size hsize path.untilZero = .ok content)
      ∧ ∀ secret,
        (HasKnownSeverity env → (∀ x ∈ s.subscribers, x.failure? = none) →
          ((∃ config, ((load (withFile env path)).perform s).1 = .ok config ∧ config.secret = secret)
            ↔ IsStoredAs secret content))
          ∧ (IsStoredAs secret content →
            ((load (withFile env path)).perform s).1 = ((load (withSecret env secret)).perform s).1
              ∧ ((((load (withFile env path)).perform s).2 = s
                  ∧ ((load (withSecret env secret)).perform s).2 = s)
                ∨ ∃ e e' : Event, e.id = Bytes.ascii "weak_audit_secret" ∧ e.SameButSource e'
                  ∧ ((load (withFile env path)).perform s).2 = ((Bus.publish e).perform s).2
                  ∧ ((load (withSecret env secret)).perform s).2 = ((Bus.publish e').perform s).2)) := by
  refine ⟨?_, ?_, ?_⟩
  · obtain ⟨pieces, last, hreads⟩ := FileReader.exists_reads (by decide : 0 < 256) { rest := content }
    obtain ⟨hflatten, hlength, -⟩ := hreads.pieces_spec (by decide) rfl rfl
    exact ⟨_, pieces, last, FileTree.openRead_of_read hread, hreads, hflatten, hlength⟩
  · intro size hsize
    rw [FileTree.readInPieces_eq_read, hread]
  · intro secret
    refine ⟨?_, fun hstored => load_withFile hread hstored env⟩
    intro hseverity hquiet
    obtain ⟨minimum, hminimum⟩ := exists_minimum?_iff.mpr hseverity
    rw [outcome_load hquiet, loaded, read_withFile env hread, hminimum, ← dropLineEnd_eq_iff]
    simp [Except.map]

/-- A secret that fills one piece and ends in a carriage return, in a file with a line end of two bytes. -/
theorem secret_file_stands_for_secret_full_piece :
    let secret : Bytes := List.replicate 255 0x61 ++ [Ascii.carriageReturn]
    let content : Bytes := secret ++ [Ascii.carriageReturn, Ascii.newline]
    let path : Bytes := Bytes.ascii "/secret"
    let s : System := { files := ⟨[([Bytes.ascii "secret"], .file content)], []⟩ }
    s.files.read path.untilZero = .ok content
      ∧ (∃ config, ((load (withFile {} path)).perform s).1 = .ok config ∧ config.secret = secret)
      ∧ ((load (withFile {} path)).perform s).1 = ((load (withSecret {} secret)).perform s).1 := by
  intro secret content path s
  have hread : s.files.read path.untilZero = .ok content := rfl
  obtain ⟨-, -, hyields⟩ := secret_file_stands_for_secret hread {}
  obtain ⟨hsecret, hsame⟩ := hyields secret
  have hstored : IsStoredAs secret content := .inr (.inl rfl)
  exact ⟨hread, (hsecret nofun (by decide)).mpr hstored, (hsame hstored).1⟩

end Config

end SignedAudit
