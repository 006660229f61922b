import SignedAudit.FileReader

namespace SignedAudit

/-! # Reading in pieces loses nothing

A read takes the front off what is still to be read. So the pieces of a run of reads, one behind the other, are what
was to be read, all of them but the last have the size that was asked for, and there is no run without an end: the
read after the last piece brings nothing. Whatever the size of the pieces is, the whole of a file is its content,
and a file that cannot be read in pieces cannot be read at all. -/

namespace FileReader

variable {size : Nat}

/-! ## Single reads -/

/-- A read that gets all that it asks for. -/
theorem read_of_le {r : FileReader} (hgood : r.stopped = false) (h : size ≤ r.rest.length) :
    r.read size = (r.rest.take size, { r with rest := r.rest.drop size }) := by
  simp [read, hgood, h]

/-- A read that comes to the end. -/
theorem read_of_lt {r : FileReader} (hgood : r.stopped = false) (herror : r.error? = none)
    (h : r.rest.length < size) : r.read size = (r.rest, { r with rest := [], stopped := true }) := by
  simp [read, hgood, herror, Nat.not_le.mpr h]

/-- A read that is refused. -/
theorem read_of_error {r : FileReader} {error : PathError} (hgood : r.stopped = false)
    (herror : r.error? = some error) (h : r.rest.length < size) :
    r.read size = ([], { r with rest := [], stopped := true, refusal? := some error }) := by
  simp [read, hgood, herror, Nat.not_le.mpr h]

/-- Once stopped, a reader gives out nothing. -/
theorem read_of_stopped {r : FileReader} (h : r.stopped = true) : r.read size = ([], r) := by
  simp [read, h]

/-! ## Runs of reads -/

/-- **A run of reads**: `Reads size r pieces last` says that reading in pieces of `size` bytes goes on with each of
`pieces`, and stops with one more read, which leaves `last`. -/
inductive Reads (size : Nat) : FileReader → List Bytes → FileReader → Prop
  | stop {r : FileReader} (h : goesOn (r.read size) = false) : Reads size r [] (r.read size).2
  | next {r : FileReader} {pieces : List Bytes} {last : FileReader} (h : goesOn (r.read size) = true)
      (hrest : Reads size (r.read size).2 pieces last) : Reads size r ((r.read size).1 :: pieces) last

/-- Gathering puts the pieces of a run one behind the other. -/
theorem Reads.gather_eq {r last : FileReader} {pieces : List Bytes} (h : Reads size r pieces last)
    (hsize : 0 < size) (before : Bytes) : r.gather size hsize before = (before ++ pieces.flatten, last) := by
  induction h generalizing before with
  | stop h => rw [gather, if_neg (by simp [h]), List.flatten_nil, List.append_nil]
  | next h hrest ih => rw [gather, if_pos h, ih, List.flatten_cons, List.append_assoc]

/-- **Every run of reads comes to its end**: each read that goes on leaves less to be read. -/
theorem exists_reads (hsize : 0 < size) (r : FileReader) : ∃ pieces last, Reads size r pieces last := by
  induction hlength : r.rest.length using Nat.strongRecOn generalizing r with
  | ind n ih =>
      cases hgoesOn : goesOn (r.read size) with
      | false => exact ⟨[], _, .stop hgoesOn⟩
      | true =>
          obtain ⟨pieces, last, hrest⟩ := ih _ (hlength ▸ length_rest_lt hsize hgoesOn) _ rfl
          exact ⟨_, last, .next hgoesOn hrest⟩

/-- Once stopped, a reader has no more pieces. -/
theorem Reads.eq_nil_of_stopped {r last : FileReader} {pieces : List Bytes} (h : Reads size r pieces last)
    (hstopped : r.stopped = true) : pieces = [] ∧ last = r := by
  cases h with
  | stop h => exact ⟨rfl, by rw [read_of_stopped hstopped]⟩
  | next h hrest => simp [read_of_stopped hstopped, goesOn, hstopped] at h

/-- **What a run of reads brings**: all that was to be read, in no more pieces than it takes, and no refusal. -/
theorem Reads.pieces_spec {r last : FileReader} {pieces : List Bytes} (h : Reads size r pieces last)
    (hsize : 0 < size) (hgood : r.stopped = false) (herror : r.error? = none) :
    pieces.flatten = r.rest
      ∧ pieces.length = (r.rest.length + (size - 1)) / size
      ∧ last.refusal? = r.refusal? := by
  induction h with
  | @stop r h =>
      by_cases hle : size ≤ r.rest.length
      · simp [read_of_le hgood hle, goesOn, hgood] at h
      · -- the read came to the end at once, and so there was nothing
        rw [read_of_lt hgood herror (Nat.not_le.mp hle)] at h ⊢
        have hnil : r.rest = [] := by simpa [goesOn] using h
        rw [hnil]
        refine ⟨rfl, ?_, rfl⟩
        simp only [List.length_nil]
        exact (Nat.div_eq_of_lt (by omega)).symm
  | @next r pieces last h hrest ih =>
      by_cases hle : size ≤ r.rest.length
      · rw [read_of_le hgood hle] at hrest ih ⊢
        obtain ⟨hflatten, hlength, hrefusal⟩ := ih hgood herror
        refine ⟨?_, ?_, hrefusal⟩
        · rw [List.flatten_cons, hflatten, List.take_append_drop]
        · have hcount : r.rest.length + (size - 1) = r.rest.length - size + (size - 1) + size := by omega
          rw [List.length_cons, hlength, List.length_drop, hcount, Nat.add_div_right _ hsize]
      · have hlt := Nat.not_le.mp hle
        rw [read_of_lt hgood herror hlt] at h hrest ⊢
        obtain ⟨rfl, rfl⟩ := hrest.eq_nil_of_stopped rfl
        have hpos : 0 < r.rest.length := by simpa [goesOn, List.length_pos_iff] using h
        refine ⟨by simp, ?_, rfl⟩
        have hcount : r.rest.length + (size - 1) = r.rest.length - 1 + size := by omega
        rw [hcount, Nat.add_div_right _ hsize, Nat.div_eq_of_lt (by omega)]
        rfl

/-- A refusal that waits behind the content is met in every run. -/
theorem Reads.refusal?_eq {r last : FileReader} {pieces : List Bytes} {error : PathError}
    (h : Reads size r pieces last) (hgood : r.stopped = false) (herror : r.error? = some error) :
    last.refusal? = some error := by
  induction h with
  | @stop r h =>
      by_cases hle : size ≤ r.rest.length
      · simp [read_of_le hgood hle, goesOn, hgood] at h
      · rw [read_of_error hgood herror (Nat.not_le.mp hle)]
  | @next r pieces last h hrest ih =>
      by_cases hle : size ≤ r.rest.length
      · rw [read_of_le hgood hle] at ih
        exact ih hgood herror
      · simp [read_of_error hgood herror (Nat.not_le.mp hle), goesOn] at h

/-! ## The whole content -/

/-- **The whole of what can be read is the content**, in pieces of whatever size. -/
theorem content_eq_ok (hsize : 0 < size) {r : FileReader} (hgood : r.stopped = false)
    (hrefusal : r.refusal? = none) (herror : r.error? = none) : r.content size hsize = .ok r.rest := by
  obtain ⟨pieces, last, h⟩ := exists_reads hsize r
  obtain ⟨hflatten, -, hlast⟩ := h.pieces_spec hsize hgood herror
  rw [content, h.gather_eq, List.nil_append, hflatten]
  simp only [hlast, hrefusal]

theorem content_eq_error (hsize : 0 < size) {r : FileReader} {error : PathError} (hgood : r.stopped = false)
    (herror : r.error? = some error) : r.content size hsize = .error error := by
  obtain ⟨pieces, last, h⟩ := exists_reads hsize r
  rw [content, h.gather_eq]
  simp only [h.refusal?_eq hgood herror]

end FileReader

namespace FileTree

/-- **A file is read in pieces as it is read at once**: its content, or why there is none. -/
theorem readInPieces_eq_read {size : Nat} (hsize : 0 < size) (t : FileTree) (path : Bytes) :
    t.readInPieces size hsize path = t.read path := by
  unfold readInPieces openRead read
  cases t.walk path (names path) with
  | error error => rfl
  | ok place =>
      simp only [bind, Except.bind]
      rcases t.node? place with _ | content | _
      · rfl
      · cases endsInSlash path with
        | true => rfl
        | false => exact FileReader.content_eq_ok hsize rfl rfl rfl
      · exact FileReader.content_eq_error hsize rfl rfl

/-- A file that can be read is opened to be read from its beginning. -/
theorem openRead_of_read {t : FileTree} {path content : Bytes} (h : t.read path = .ok content) :
    t.openRead path = .ok { rest := content } := by
  unfold read at h
  unfold openRead
  cases hwalk : t.walk path (names path) with
  | error error =>
      rw [hwalk] at h
      cases h
  | ok place =>
      rw [hwalk] at h
      simp only [bind, Except.bind] at h ⊢
      rcases hnode : t.node? place with _ | held | _
      · simp [hnode] at h
      · simp only [hnode] at h ⊢
        split at h
        · cases h
        · cases h
          simp_all
      · simp [hnode] at h

end FileTree

end SignedAudit
