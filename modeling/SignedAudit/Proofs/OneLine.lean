import SignedAudit.Proofs.FileTree
import SignedAudit.Proofs.LineReading

namespace SignedAudit

/-! # One line for each event

A log that takes an event appends one line to its sink and does nothing else: the rendering of the event, or, if
that is too long, the rendering of the event that stands for it and names its identifier. The line ends where
the line end is, because strings hold no control bytes; numeric values are written as they are, so that there it
is up to whoever reports the event. The stand-in holds the identifier in full and has a limit of its own, which
an identifier of moderate length does not reach. -/

open Consultation

/-! ## Sinks and what they hold -/

namespace System

/-- What was written to a sink, with what its file held before. -/
def written (s : System) : Sink → Bytes
  | .console => s.console
  | .stream name => (s.streams.lookup name).getD []
  | .file place =>
    match s.files.node? place with
    | some (.file content) => content
    | _ => []

theorem written_console (s : System) : s.written .console = s.console := rfl

/-- Can a sink be written to? A file has to be there. -/
def IsOpen (s : System) : Sink → Prop
  | .console => True
  | .stream _ => True
  | .file place => ∃ content, s.files.node? place = some (.file content)

/-- **Writing appends to one sink**, and leaves what the others hold. -/
theorem written_write {s : System} {sink : Sink} (h : s.IsOpen sink) (text : Bytes) (other : Sink) :
    (s.write sink text).written other = s.written other ++ if other = sink then text else [] := by
  cases sink with
  | console => cases other <;> simp [System.write, written]
  | stream name =>
      cases other with
      | stream q =>
          show (((name, (s.streams.lookup name).getD [] ++ text)
            :: s.streams.filter (·.1 != name)).lookup q).getD [] = _
          rw [lookup_cons_filter]
          by_cases hself : q = name
          · simp [written, hself]
          · simp [written, hself]
      | console => simp [System.write, written]
      | file place => simp [System.write, written]
  | file place =>
      obtain ⟨content, hcontent⟩ := h
      cases other with
      | file q =>
          simp only [written, System.write, FileTree.node?_append, Sink.file.injEq]
          by_cases hself : q = place
          · simp [hself, hcontent, Node.grow]
          · simp [hself]
      | console => simp [System.write, written]
      | stream q => simp [System.write, written]

end System

/-! ## How long a rendering is -/

namespace Event

variable {digest : Bytes → Digest}

theorem length_chain (opening : UInt8) (members : List (Bytes × Shown)) :
    (chain digest opening members).length
      = (members.map fun m => (writeMember digest m).length + 1).sum + 1 := by
  induction members generalizing opening with
  | nil => rfl
  | cons m rest ih =>
      rw [chain, List.cons_append, List.length_cons, List.length_append, ih, List.map_cons, List.sum_cons]
      omega

theorem length_writeMember_text_le (digest : Bytes → Digest) (name t : Bytes) :
    (writeMember digest (name, .text t)).length ≤ (Json.quoted name).length + 6 * t.length + 3 := by
  have ht := Json.length_quoted_le t
  simp only [writeMember, Shown.written, Json.member, List.length_append, List.length_cons]
  omega

/-- A rendering takes one byte more for each member, and one for its end. -/
theorem length_rendering (e : Event) (time : Bytes) :
    (e.rendering digest time).length
      = ((e.members time).map fun m => (writeMember digest m).length + 1).sum + 1 := by
  rw [← chain_openBrace, length_chain]

theorem written_infix_chain (digest : Bytes → Digest) {m : Bytes × Shown} {members : List (Bytes × Shown)}
    (hm : m ∈ members) (opening : UInt8) : m.2.written digest <:+: chain digest opening members := by
  induction members generalizing opening with
  | nil => cases hm
  | cons n rest ih =>
      rw [chain]
      rcases List.mem_cons.mp hm with rfl | hm
      · have hmember : m.2.written digest <:+: writeMember digest m := by
          rw [writeMember, Json.member]
          exact ((List.suffix_cons Ascii.colon _).trans (List.suffix_append _ _)).isInfix
        exact (hmember.trans (List.suffix_cons opening _).isInfix).trans (List.prefix_append _ _).isInfix
      · exact (ih hm Ascii.comma).trans (List.suffix_append _ _).isInfix

/-- What is shown of a member is a part of the line. -/
theorem written_infix_rendering (digest : Bytes → Digest) {e : Event} {time : Bytes} {m : Bytes × Shown}
    (hm : m ∈ e.members time) : m.2.written digest <:+: e.rendering digest time := by
  rw [← chain_openBrace]
  exact written_infix_chain digest hm Ascii.openBrace

theorem id_mem_members {e : Event} (h : e.id ≠ []) (time : Bytes) :
    (Bytes.ascii "event_id", Shown.text e.id) ∈ e.members time := by
  simp [members, h]

theorem message_mem_members {e : Event} (h : e.message ≠ []) (time : Bytes) :
    (Bytes.ascii "message", Shown.text e.message) ∈ e.members time := by
  simp [members, h]

/-! ## The event that stands for one that is too long -/

/-- The members of the stand-in: the identifier of the event, if it has one, and the limit. -/
theorem members_oversize (e : Event) (time : Bytes) :
    e.oversize.members time
      = [(Bytes.ascii "ts", .text time)]
        ++ [(Bytes.ascii "severity", .text (Bytes.ascii "warning")),
          (Bytes.ascii "category", .text (Bytes.ascii "diagnostics")),
          (Bytes.ascii "event_id", .text (Bytes.ascii "event_oversize")),
          (Bytes.ascii "message", .text (Bytes.ascii "Event payload exceeded logger limits"))]
        ++ (if e.id = [] then [] else [(Bytes.ascii "original_event_id", .text e.id)])
        ++ [(Bytes.ascii "limit_bytes", .numeral (Decimal.ofNat lineLimit))] := by
  unfold members oversize
  split <;> rfl

/-- **The stand-in is as long as the identifier makes it**: six bytes at most for each byte of it, and a
moderate number for all else. -/
theorem length_oversize_rendering_le (digest : Bytes → Digest) (e : Event) {time : Bytes}
    (htime : time.length ≤ 28) : (e.oversize.rendering digest time).length ≤ 6 * e.id.length + 500 := by
  have hts := length_writeMember_text_le digest (Bytes.ascii "ts") time
  have htsKey : (Json.quoted (Bytes.ascii "ts")).length = 4 := by decide
  have hid := length_writeMember_text_le digest (Bytes.ascii "original_event_id") e.id
  have hidKey : (Json.quoted (Bytes.ascii "original_event_id")).length = 19 := by decide
  have hfixed : ([(Bytes.ascii "severity", Shown.text (Bytes.ascii "warning")),
      (Bytes.ascii "category", .text (Bytes.ascii "diagnostics")),
      (Bytes.ascii "event_id", .text (Bytes.ascii "event_oversize")),
      (Bytes.ascii "message", .text (Bytes.ascii "Event payload exceeded logger limits"))].map
        fun m => (writeMember digest m).length + 1).sum = 123 := by
    rfl
  have hlimit : (writeMember digest (Bytes.ascii "limit_bytes", .numeral (Decimal.ofNat lineLimit))).length
      ≤ 19 := by
    have hdigits : (Decimal.ofNat lineLimit).length ≤ 4 + 1 := Decimal.length_ofNat_le (by decide)
    have hkey : (Json.quoted (Bytes.ascii "limit_bytes")).length = 13 := by decide
    simp only [writeMember, Shown.written, Json.member, List.length_append, List.length_cons]
    omega
  rw [length_rendering, members_oversize, List.map_append, List.sum_append, List.map_append, List.sum_append,
    List.map_append, List.sum_append, hfixed]
  split
  · simp only [List.map_cons, List.map_nil, List.sum_cons, List.sum_nil]
    omega
  · simp only [List.map_cons, List.map_nil, List.sum_cons, List.sum_nil]
    omega

/-- The only number of the stand-in is the limit. -/
theorem hasNumerals_oversize (e : Event) : e.oversize.HasNumerals := by
  intro f hf hshows
  rcases List.mem_append.mp hf with hf | hf
  · split at hf
    · cases hf
    · rw [List.mem_singleton.mp hf] at hshows
      cases hshows.numeric
  · rw [List.mem_singleton.mp hf]
    exact ⟨lineLimit, rfl⟩

/-- The members of the stand-in as they are read. -/
def standIn (e : Event) (time : Bytes) : List (Bytes × Json.Value) :=
  [(Bytes.ascii "ts", .text time),
    (Bytes.ascii "severity", .text (Bytes.ascii "warning")),
    (Bytes.ascii "category", .text (Bytes.ascii "diagnostics")),
    (Bytes.ascii "event_id", .text (Bytes.ascii "event_oversize")),
    (Bytes.ascii "message", .text (Bytes.ascii "Event payload exceeded logger limits"))]
  ++ (if e.id = [] then [] else [(Bytes.ascii "original_event_id", .text e.id)])
  ++ [(Bytes.ascii "limit_bytes", .integer 16384)]

/-- **The stand-in names the identifier.** -/
theorem read?_oversize_rendering (e : Event) (time : Bytes) :
    Json.read? (e.oversize.rendering digest time) = some (.object (e.standIn time)) := by
  have hlimit : (Decimal.int? (Decimal.ofNat lineLimit)).getD 0 = 16384 := by
    have hread := Decimal.int?_ofInt 16384
    rw [show Decimal.ofNat lineLimit = Decimal.ofInt 16384 from rfl, hread]
    rfl
  have hmembers : (e.oversize.members time).map (fun m => (m.1, m.2.value digest)) = e.standIn time := by
    rw [members_oversize, standIn]
    split <;> simp [Shown.value, hlimit]
  rw [← hmembers]
  exact Json.read?_eq_some (Json.writes_object _ fun m hm => writes_written digest e.hasNumerals_oversize hm)

/-- What a log keeps of an event, if the identifier of the event leaves room for it. -/
def kept (digest : Bytes → Digest) (e : Event) (time : Bytes) : Bytes :=
  if (e.rendering digest time).length ≤ lineLimit then e.rendering digest time
  else e.oversize.rendering digest time

theorem keptAs_kept {e : Event} (hid : e.id.length ≤ 2600) (t : Instant) :
    e.KeptAs digest t.logText (e.kept digest t.logText) := by
  have hoversize := length_oversize_rendering_le digest e t.length_logText_le
  have hlimit : lineLimit = 16384 := rfl
  unfold kept
  split
  · next hown => exact .own hown
  · next hown => exact .oversize (Nat.not_le.mp hown) (by omega)

/-- An identifier of moderate length leaves room for the stand-in, and so something is kept of the event. -/
theorem exists_keptAs {e : Event} (hid : e.id.length ≤ 2600) (t : Instant) :
    ∃ kept, e.KeptAs digest t.logText kept :=
  ⟨e.kept digest t.logText, keptAs_kept hid t⟩

/-- What is kept is not longer than a line may be. -/
theorem KeptAs.length_le {e : Event} {time kept : Bytes} (h : e.KeptAs digest time kept) :
    kept.length ≤ lineLimit := by
  cases h with
  | own h => exact h
  | oversize _ h => exact h

/-! ## Where a line ends -/

/-- **A line end comes from a numeric value**, as these are written without quotes. -/
theorem newline_mem_rendering_iff (e : Event) (time : Bytes) :
    Ascii.newline ∈ e.rendering digest time
      ↔ ∃ f ∈ e.fields, f.ShowsNumeral ∧ Ascii.newline ∈ f.value := by
  constructor
  · intro h
    by_contra hnone
    have hbytes : ∀ b ∈ e.rendering digest time, b ≠ Ascii.newline := by
      apply forall_mem_rendering
      · rintro b hb rfl
        exact absurd hb (by decide)
      · rintro f hf hshows b hb rfl
        exact hnone ⟨f, hf, hshows, hb⟩
    exact hbytes _ h rfl
  · rintro ⟨f, hf, hshows, hvalue⟩
    have hmember : (f.key, Shown.ofField f) ∈ e.members time :=
      List.mem_append_right _ (List.mem_map_of_mem hf)
    apply (written_infix_rendering digest hmember).subset
    rw [(ofField_eq_numeral_iff f f.value).mpr ⟨hshows, rfl⟩]
    exact hvalue

/-- The stand-in is one line, whatever the event holds. -/
theorem newline_notMem_oversize (e : Event) (time : Bytes) :
    Ascii.newline ∉ e.oversize.rendering digest time := by
  intro h
  exact absurd (isPrintable_rendering e.hasNumerals_oversize time _ h) (by decide)

/-- **What is kept is one line**, unless it is the event itself and shows a number with a line end in it. -/
theorem KeptAs.newline_mem_iff {e : Event} {time kept : Bytes} (h : e.KeptAs digest time kept) :
    Ascii.newline ∈ kept ↔ (e.rendering digest time).length ≤ lineLimit
      ∧ ∃ f ∈ e.fields, f.ShowsNumeral ∧ Ascii.newline ∈ f.value := by
  cases h with
  | own h => rw [newline_mem_rendering_iff, and_iff_right h]
  | oversize h _ =>
      simp only [newline_notMem_oversize, false_iff, not_and]
      intro hle
      omega

/-! ## Where nothing is kept -/

/-- An identifier that fills a line leaves no room for itself, neither in the event nor in its stand-in. -/
theorem length_rendering_of_long_id (digest : Bytes → Digest) {e : Event} (h : lineLimit ≤ e.id.length)
    (time : Bytes) :
    lineLimit < (e.rendering digest time).length ∧ lineLimit < (e.oversize.rendering digest time).length := by
  have hid : e.id ≠ [] := by
    rintro hnil
    rw [hnil] at h
    exact absurd h (by decide)
  have hquoted := Json.length_add_two_le_length_quoted e.id
  have hown := id_mem_members hid time
  have hstand : (Bytes.ascii "original_event_id", Shown.text e.id) ∈ e.oversize.members time := by
    rw [members_oversize]
    simp [hid]
  have hownLength := (written_infix_rendering digest hown).length_le
  have hstandLength := (written_infix_rendering digest hstand).length_le
  simp only [Shown.written] at hownLength hstandLength
  omega

end Event

/-! ## Logging -/

namespace Logger

variable {digest : Bytes → Digest}

/-- What is kept of an event goes to the sink of the log. -/
theorem perform_log_of_keptAs {s : System} (hp : s.provider.Digests digest) (logger : Logger) {e : Event}
    (hle : logger.minimum.rank ≤ e.severity.rank) {kept : Bytes} (h : e.KeptAs digest s.now.logText kept) :
    ∃ calls, (logger.log e).perform s
      = (.ok (), { s with calls }.write logger.sink (kept ++ [Ascii.newline])) := by
  obtain ⟨calls, hline⟩ := Event.answer_logLine_of_keptAs hp h s.calls
  rw [perform_log_of_le hle, hline]
  exact ⟨calls, rfl⟩

/-- An event that leaves no line leaves nothing at all. -/
theorem perform_log_of_long_id {s : System} (hp : s.provider.Digests digest) (logger : Logger) {e : Event}
    (h : Event.lineLimit ≤ e.id.length) :
    ∃ calls, (logger.log e).perform s = (.ok (), { s with calls }) := by
  by_cases hle : logger.minimum.rank ≤ e.severity.rank
  · obtain ⟨hown, hstand⟩ := Event.length_rendering_of_long_id digest h s.now.logText
    obtain ⟨after, hline⟩ := Event.answer_line hp e s.now.logText Event.lineLimit s.calls
    obtain ⟨final, hreplaced⟩ := Event.answer_line hp e.oversize s.now.logText Event.lineLimit after
    rw [if_neg (Nat.not_le.mpr hown)] at hline
    rw [if_neg (Nat.not_le.mpr hstand)] at hreplaced
    refine ⟨final, ?_⟩
    rw [perform_log_of_le hle, Event.logLine?, Consultation.answer_bind, hline]
    simp only [hreplaced]
  · exact ⟨s.calls, perform_log_of_lt (Nat.not_le.mp hle) s⟩

/-- **What is logged is one line.** An event below the least severity leaves everything as it was. Any other
event of which a line is kept leaves this line and its end in the sink of the log, and nothing anywhere else;
the line is not longer than the limit, and it has no line end of its own, unless the event shows a number with
one. The line is the event itself if that is short enough, and otherwise the event that stands for it and names
its identifier; an identifier of moderate length always leaves room for one of them. -/
theorem log_keeps_one_line {s : System} (hp : s.provider.Digests digest) (logger : Logger) (e : Event) :
    (e.severity.rank < logger.minimum.rank → (logger.log e).perform s = (.ok (), s))
      ∧ (∀ kept, logger.minimum.rank ≤ e.severity.rank → e.KeptAs digest s.now.logText kept →
        (∃ calls, (logger.log e).perform s
            = (.ok (), { s with calls }.write logger.sink (kept ++ [Ascii.newline])))
          ∧ (s.IsOpen logger.sink → ∀ sink, ((logger.log e).perform s).2.written sink
              = s.written sink ++ if sink = logger.sink then kept ++ [Ascii.newline] else [])
          ∧ kept.length ≤ 16384
          ∧ (Ascii.newline ∈ kept ↔ (e.rendering digest s.now.logText).length ≤ 16384
              ∧ ∃ f ∈ e.fields, f.ShowsNumeral ∧ Ascii.newline ∈ f.value))
      ∧ Json.read? (e.oversize.rendering digest s.now.logText)
        = some (.object (e.standIn s.now.logText))
      ∧ (e.id.length ≤ 2600 → ∃ kept, e.KeptAs digest s.now.logText kept) := by
  refine ⟨fun h => perform_log_of_lt h s, ?_, e.read?_oversize_rendering _,
    fun hid => Event.exists_keptAs hid s.now⟩
  intro kept hle hkept
  obtain ⟨calls, hperform⟩ := perform_log_of_keptAs hp logger hle hkept
  refine ⟨⟨calls, hperform⟩, ?_, hkept.length_le, hkept.newline_mem_iff⟩
  intro hopen sink
  rw [hperform]
  have hopen' : System.IsOpen { s with calls } logger.sink := hopen
  exact System.written_write hopen' _ sink

/-- An event whose message is longer than a line may be. -/
def longEvent : Event where
  severity := .error
  id := Bytes.ascii "huge"
  message := List.replicate 32768 Ascii.space

/-- It is kept as its stand-in, which names it. -/
theorem log_keeps_one_line_long :
    ∃ line, ((({} : Logger).log longEvent).perform {}).2.console = line ++ [Ascii.newline]
      ∧ Ascii.newline ∉ line ∧ line.length ≤ 16384
      ∧ Json.read? line = some (.object
          [(Bytes.ascii "ts", .text Instant.epoch.logText),
            (Bytes.ascii "severity", .text (Bytes.ascii "warning")),
            (Bytes.ascii "category", .text (Bytes.ascii "diagnostics")),
            (Bytes.ascii "event_id", .text (Bytes.ascii "event_oversize")),
            (Bytes.ascii "message", .text (Bytes.ascii "Event payload exceeded logger limits")),
            (Bytes.ascii "original_event_id", .text (Bytes.ascii "huge")),
            (Bytes.ascii "limit_bytes", .integer 16384)]) := by
  have hp : Provider.standard.Digests Sha256.hash := fun _ _ => rfl
  have hlong : Event.lineLimit < (longEvent.rendering Sha256.hash Instant.epoch.logText).length := by
    have hlength : longEvent.message.length = 32768 := List.length_replicate
    have hne : longEvent.message ≠ [] := List.ne_nil_of_length_pos (by rw [hlength]; decide)
    have hmessage := Event.message_mem_members hne Instant.epoch.logText
    have hpart := (Event.written_infix_rendering Sha256.hash hmessage).length_le
    have hquoted := Json.length_add_two_le_length_quoted longEvent.message
    have hlimit : Event.lineLimit = 16384 := rfl
    rw [Event.Shown.written] at hpart
    omega
  obtain ⟨-, hkeeps, hread, hexists⟩ := log_keeps_one_line (s := {}) hp {} longEvent
  obtain ⟨kept, hkept⟩ := hexists (by decide)
  obtain ⟨-, hwritten, hlength, hnewline⟩ := hkeeps kept (by decide) hkept
  have hconsole := hwritten trivial .console
  rw [System.written_console, System.written_console, if_pos rfl] at hconsole
  refine ⟨kept, hconsole, ?_, hlength, ?_⟩
  · rw [hnewline]
    exact fun h => absurd h.1 (Nat.not_le.mpr hlong)
  · cases hkept with
    | own h => exact absurd h (Nat.not_le.mpr hlong)
    | oversize _ _ => exact hread

/-- An event that shows a number with a line end in it. -/
def splitEvent : Event where
  id := Bytes.ascii "count"
  fields := [{ key := Bytes.ascii "n", value := Bytes.ascii "1\n2", numeric := true }]

/-- An event whose identifier fills a line. -/
def boundlessEvent : Event where
  id := List.replicate 16384 Ascii.space

/-- **Not every event makes one line**: a number with a line end in it splits the line, and an identifier that
fills a line leaves none. -/
theorem not_always_one_line :
    (¬ ∃ line, Ascii.newline ∉ line
        ∧ ((({} : Logger).log splitEvent).perform {}).2.console = line ++ [Ascii.newline])
      ∧ ((({} : Logger).log boundlessEvent).perform {}).2.console = [] := by
  have hp : Provider.standard.Digests Sha256.hash := fun _ _ => rfl
  constructor
  · rintro ⟨line, hline, hconsole⟩
    have hfits : (splitEvent.rendering Sha256.hash Instant.epoch.logText).length ≤ Event.lineLimit := by
      decide +kernel
    obtain ⟨calls, hlogged⟩ := perform_log_of_keptAs (s := {}) hp {} (by decide) (.own hfits)
    rw [hlogged] at hconsole
    obtain rfl : splitEvent.rendering Sha256.hash Instant.epoch.logText = line :=
      List.append_cancel_right hconsole
    apply hline
    rw [Event.newline_mem_rendering_iff]
    refine ⟨_, List.mem_singleton_self _, ⟨rfl, rfl, ?_⟩, by decide⟩
    rw [← Field.namesSecret_iff]
    decide
  · obtain ⟨calls, hdropped⟩ := perform_log_of_long_id (s := {}) hp {} (e := boundlessEvent)
      (by rw [boundlessEvent, List.length_replicate]; decide)
    rw [hdropped]

end Logger

end SignedAudit
