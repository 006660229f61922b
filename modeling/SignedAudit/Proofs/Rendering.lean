import SignedAudit.Proofs.EventLine
import SignedAudit.Proofs.JsonText

namespace SignedAudit

/-! # The whole line of an event

With a provider that answers every question, the line of an event is one text, its rendering, and the room
there is for it decides about nothing but whether there is a line at all: the members are put together one by
one, and the first that does not fit comes up exactly when the whole does not fit. So the limit is exact, in
whatever parts a line is put together. A log keeps the rendering of an event that is short enough, and otherwise
the one of the event that stands for it. -/

open Consultation

/-! ## A provider that answers -/

/-- **A hashing provider** has a plain digest for all data, however often it was asked. -/
def Provider.Hashes (p : Provider) : Prop := ∀ call data, ∃ d, p.sha256 call data = .ok d

/-- **A provider that digests**: no plain digest fails, and each is a function of the data. -/
def Provider.Digests (p : Provider) (digest : Bytes → Digest) : Prop :=
  ∀ call data, p.sha256 call data = .ok (digest data)

theorem Provider.digests_standard : standard.Digests Sha256.hash := fun _ _ => rfl

theorem Provider.Digests.hashes {p : Provider} {digest : Bytes → Digest} (hp : p.Digests digest) : p.Hashes :=
  fun call data => ⟨digest data, hp call data⟩

/-- The hexadecimal digest that stands for a value, and nothing for the empty value. -/
def Bytes.fingerprint (digest : Bytes → Digest) (value : Bytes) : Bytes :=
  if value = [] then [] else Hex.encode (digest value).val

/-! ## Parts under a limit -/

/-- Appends parts one behind the other, each of them only if there is room for it. -/
def Bytes.appendWithin (limit : Nat) : (written : Bytes) → (parts : List Bytes) → Option Bytes
  | written, [] => some written
  | written, part :: rest =>
    if limit < written.length + part.length then none else appendWithin limit (written ++ part) rest

/-- **Parts are all appended or not at all**: the first without room comes up exactly where there is no room for
all of them. -/
theorem Bytes.appendWithin_eq {limit : Nat} {written : Bytes} (h : written.length ≤ limit) (parts : List Bytes) :
    appendWithin limit written parts
      = if (written ++ parts.flatten).length ≤ limit then some (written ++ parts.flatten) else none := by
  induction parts generalizing written with
  | nil => simp [appendWithin, h]
  | cons part rest ih =>
      rw [appendWithin]
      by_cases hpart : limit < written.length + part.length
      · have hwhole : ¬ (written ++ (part :: rest).flatten).length ≤ limit := by
          simp only [List.flatten_cons, List.length_append]
          omega
        rw [if_pos hpart, if_neg hwhole]
      · rw [if_neg hpart, ih (by rw [List.length_append]; omega), List.flatten_cons, List.append_assoc]

namespace Event

variable {p : Provider} {digest : Bytes → Digest}

/-! ## Without a limit -/

/-- Members and the closing brace, where there is room for whatever they are. -/
def assembleAll (p : Provider) : (opening : UInt8) → List (Bytes × Shown) → Consultation Bytes
  | _, [] => pure [Ascii.closeBrace]
  | opening, (name, shown) :: rest => do
    let value ← shown.render p
    let tail ← assembleAll p Ascii.comma rest
    return opening :: Json.quoted name ++ [Ascii.colon] ++ value ++ tail

/-- **The line of an event as it would be without a limit.** -/
def unlimitedLine (p : Provider) (e : Event) (time : Bytes) : Consultation Bytes :=
  assembleAll p Ascii.openBrace (e.members time)

/-- A value is written wherever the provider hashes. -/
theorem exists_answer_render (hp : p.Hashes) (shown : Shown) (calls : Nat) :
    ∃ value after, answer (shown.render p) calls = (.ok value, after) := by
  cases shown with
  | text t => exact ⟨_, calls, rfl⟩
  | numeral t => exact ⟨_, calls, rfl⟩
  | fingerprint value =>
      rw [Shown.render, answer_bind, Provider.fingerprint]
      by_cases hvalue : value = []
      · rw [if_pos hvalue]
        exact ⟨_, calls, rfl⟩
      · obtain ⟨d, hd⟩ := hp calls value
        rw [if_neg hvalue, answer_bind, answer_askSha256, hd]
        exact ⟨_, calls + 1, rfl⟩

/-- **Room decides whether there is a line, and about nothing else.** Each part is measured against the room that
those before it have left; what stands behind it takes no less than nothing, so that the first part without room
comes up exactly where the whole has none. -/
theorem exists_answer_assemble (hp : p.Hashes) (members : List (Bytes × Shown)) (opening : UInt8) (calls : Nat) :
    ∃ text after, answer (assembleAll p opening members) calls = (.ok text, after) ∧ 0 < text.length
      ∧ ∀ room, (answer (assemble p room opening members) calls).1
        = .ok (if text.length ≤ room then some text else none) := by
  induction members generalizing opening calls with
  | nil =>
      refine ⟨[Ascii.closeBrace], calls, rfl, Nat.one_pos, ?_⟩
      intro room
      rw [assemble, answer_pure, List.length_singleton]
      by_cases hroom : room < 1
      · rw [if_pos hroom, if_neg (Nat.not_le.mpr hroom)]
      · rw [if_neg hroom, if_pos (Nat.not_lt.mp hroom)]
  | cons m rest ih =>
      obtain ⟨name, shown⟩ := m
      obtain ⟨value, after, hvalue⟩ := exists_answer_render hp shown calls
      obtain ⟨tail, final, htail, hpos, hrest⟩ := ih Ascii.comma after
      have hall : answer (assembleAll p opening ((name, shown) :: rest)) calls
          = (.ok (opening :: Json.quoted name ++ [Ascii.colon] ++ value ++ tail), final) := by
        rw [assembleAll, answer_bind, hvalue]
        dsimp only
        rw [answer_bind, htail]
        rfl
      have hlength : (opening :: Json.quoted name ++ [Ascii.colon] ++ value ++ tail).length
          = (Json.quoted name).length + 2 + value.length + tail.length := by
        rw [List.length_append, List.length_append, length_key]
      refine ⟨_, final, hall, by omega, ?_⟩
      intro room
      specialize hrest (room - ((Json.quoted name).length + 2) - value.length)
      rw [answer_assemble_cons, hvalue, length_key, hlength]
      by_cases hkey : room < (Json.quoted name).length + 2
      · rw [if_pos hkey, if_neg (by omega)]
      · rw [if_neg hkey]
        dsimp only
        by_cases hroom : room - ((Json.quoted name).length + 2) < value.length
        · rw [if_pos hroom, if_neg (by omega)]
        · rw [if_neg hroom]
          generalize answer (assemble p _ Ascii.comma rest) after = answered at hrest
          obtain ⟨outcome, last⟩ := answered
          obtain rfl := hrest
          by_cases hfits : tail.length ≤ room - ((Json.quoted name).length + 2) - value.length
          · rw [if_pos hfits, if_pos (by omega)]
            rfl
          · rw [if_neg hfits, if_neg (by omega)]
            rfl

/-! ## The members with their digests -/

theorem answer_fingerprint (hp : p.Digests digest) (value : Bytes) (calls : Nat) :
    ∃ after, answer (p.fingerprint value) calls = (.ok (Bytes.fingerprint digest value), after) := by
  unfold Provider.fingerprint Bytes.fingerprint
  split
  · exact ⟨calls, rfl⟩
  · rw [answer_bind, answer_askSha256, hp]
    exact ⟨calls + 1, rfl⟩

/-! ## Members behind one another -/

/-- What is shown, as it is written. -/
def Shown.written (digest : Bytes → Digest) : Shown → Bytes
  | .text t => Json.quoted t
  | .numeral t => t
  | .fingerprint value => Json.quoted (Bytes.ascii "hash:" ++ Bytes.fingerprint digest value)

theorem answer_render (hp : p.Digests digest) (shown : Shown) (calls : Nat) :
    ∃ after, answer (shown.render p) calls = (.ok (shown.written digest), after) := by
  cases shown with
  | text t => exact ⟨calls, rfl⟩
  | numeral t => exact ⟨calls, rfl⟩
  | fingerprint value =>
      obtain ⟨after, hvalue⟩ := answer_fingerprint hp value calls
      rw [Shown.render, answer_bind, hvalue]
      exact ⟨after, rfl⟩

/-- A member as it is written. -/
def writeMember (digest : Bytes → Digest) (m : Bytes × Shown) : Bytes :=
  Json.member m.1 (m.2.written digest)

/-- Members with a byte in front of each, and the closing brace. -/
def chain (digest : Bytes → Digest) : (opening : UInt8) → List (Bytes × Shown) → Bytes
  | _, [] => [Ascii.closeBrace]
  | opening, m :: rest => opening :: writeMember digest m ++ chain digest Ascii.comma rest

/-- Behind an opening brace the members make up an object. -/
theorem chain_cons (opening : UInt8) (m : Bytes × Shown) (rest : List (Bytes × Shown)) :
    chain digest opening (m :: rest)
      = opening :: [Ascii.comma].intercalate ((m :: rest).map (writeMember digest))
        ++ [Ascii.closeBrace] := by
  induction rest generalizing opening m with
  | nil => simp [chain]
  | cons n rest ih =>
      rw [chain, ih]
      simp [List.intercalate_cons_cons]

/-- Without a limit, the members with their digests are what is written. -/
theorem answer_assembleAll (hp : p.Digests digest) (members : List (Bytes × Shown)) (opening : UInt8)
    (calls : Nat) :
    ∃ after, answer (assembleAll p opening members) calls = (.ok (chain digest opening members), after) := by
  induction members generalizing opening calls with
  | nil => exact ⟨calls, rfl⟩
  | cons m rest ih =>
      obtain ⟨name, shown⟩ := m
      obtain ⟨after, hvalue⟩ := answer_render hp shown calls
      obtain ⟨final, htail⟩ := ih Ascii.comma after
      refine ⟨final, ?_⟩
      rw [assembleAll, answer_bind, hvalue]
      dsimp only
      rw [answer_bind, htail]
      simp [chain, writeMember, Json.member]

/-- With a limit, it is either this or nothing. -/
theorem answer_assemble (hp : p.Digests digest) (members : List (Bytes × Shown)) (room : Nat)
    (opening : UInt8) (calls : Nat) :
    ∃ after, answer (assemble p room opening members) calls
      = (.ok (if (chain digest opening members).length ≤ room then some (chain digest opening members)
          else none), after) := by
  obtain ⟨text, after, hall, -, hroom⟩ := exists_answer_assemble hp.hashes members opening calls
  obtain ⟨final, hchain⟩ := answer_assembleAll hp members opening calls
  obtain rfl : text = chain digest opening members :=
    Except.ok.inj (congrArg Prod.fst (hall.symm.trans hchain))
  exact ⟨_, Prod.ext (hroom room) rfl⟩

/-! ## The line and its limit -/

/-- **The rendering of an event**: its members as one object, whatever its length. -/
def rendering (digest : Bytes → Digest) (e : Event) (time : Bytes) : Bytes :=
  Json.object ((e.members time).map (writeMember digest))

theorem chain_openBrace (e : Event) (time : Bytes) :
    chain digest Ascii.openBrace (e.members time) = e.rendering digest time :=
  chain_cons _ _ _

/-- **The line of an event is its rendering**, if that has at most as many bytes as there is room for. -/
theorem answer_line (hp : p.Digests digest) (e : Event) (time : Bytes) (limit calls : Nat) :
    ∃ after, answer (e.line p time limit) calls
      = (.ok (if (e.rendering digest time).length ≤ limit then some (e.rendering digest time) else none),
          after) := by
  rw [← chain_openBrace]
  exact answer_assemble hp (e.members time) limit Ascii.openBrace calls

/-- **The limit of a line is exact.** With a provider that hashes there is one text that the line of an event would
be without a limit, whose form is known where digests are a function of the data. It is the line if the limit allows
for all its bytes, and otherwise there is no line. So a line is never cut short and never exceeds its limit, it stays
as it is where the limit is higher, and to append the text under the limit, in whatever parts, comes to the same. -/
theorem line_limit_exact (hp : p.Hashes) (e : Event) (time : Bytes) (calls : Nat) :
    ∃ text, (answer (e.unlimitedLine p time) calls).1 = .ok text
      ∧ (∀ digest, p.Digests digest → text = e.rendering digest time)
      ∧ (∀ limit, (answer (e.line p time limit) calls).1 = .ok (if text.length ≤ limit then some text else none))
      ∧ (∀ limit shown, (answer (e.line p time limit) calls).1 = .ok (some shown) →
        shown = text ∧ shown.length ≤ limit
          ∧ ∀ higher, limit ≤ higher → (answer (e.line p time higher) calls).1 = .ok (some shown))
      ∧ ∀ parts : List Bytes, parts.flatten = text → ∀ limit,
        (answer (e.line p time limit) calls).1 = .ok (Bytes.appendWithin limit [] parts) := by
  obtain ⟨text, after, hall, -, hline⟩ := exists_answer_assemble hp (e.members time) Ascii.openBrace calls
  refine ⟨text, congrArg Prod.fst hall, ?_, hline, ?_, ?_⟩
  · intro digest hdigest
    obtain ⟨final, hchain⟩ := answer_assembleAll hdigest (e.members time) Ascii.openBrace calls
    rw [← chain_openBrace]
    exact Except.ok.inj (congrArg Prod.fst (hall.symm.trans hchain))
  · intro limit shown hshown
    by_cases hfits : text.length ≤ limit
    · obtain rfl : text = shown := by
        have hwhole := (hline limit).symm.trans hshown
        rw [if_pos hfits] at hwhole
        exact Option.some.inj (Except.ok.inj hwhole)
      refine ⟨rfl, hfits, ?_⟩
      intro higher hle
      rw [line, hline higher, if_pos (Nat.le_trans hfits hle)]
    · have hnone := (hline limit).symm.trans hshown
      rw [if_neg hfits] at hnone
      cases hnone
  · intro parts hparts limit
    rw [line, hline limit, Bytes.appendWithin_eq (Nat.zero_le limit), List.nil_append, hparts]

/-- An event with a quote in its message and a hashed field. -/
def quotingEvent : Event where
  message := Bytes.ascii "\"hi\""
  fields := [{ key := Bytes.ascii "user", value := Bytes.ascii "alice", privacy := .hashed }]

/-- One byte decides whether it has a line. -/
theorem line_limit_exact_quoting :
    ∃ text, text.length = 153
      ∧ (answer (quotingEvent.line .standard (Bytes.ascii "now") 153) 0).1 = .ok (some text)
      ∧ (answer (quotingEvent.line .standard (Bytes.ascii "now") 152) 0).1 = .ok none := by
  obtain ⟨text, -, hform, hline, -⟩ :=
    line_limit_exact Provider.digests_standard.hashes quotingEvent (Bytes.ascii "now") 0
  have hlength : text.length = 153 := by
    rw [hform _ Provider.digests_standard]
    decide +kernel
  refine ⟨text, hlength, ?_, ?_⟩
  · rw [hline, hlength]
    rfl
  · rw [hline, hlength]
    rfl

/-- **What a log keeps of an event**: its rendering if that is short enough, and otherwise the rendering of the
event that stands for it if that one is. -/
inductive KeptAs (digest : Bytes → Digest) (e : Event) (time : Bytes) : Bytes → Prop
  | own (h : (e.rendering digest time).length ≤ lineLimit) : KeptAs digest e time (e.rendering digest time)
  | oversize (h : lineLimit < (e.rendering digest time).length)
      (hoversize : (e.oversize.rendering digest time).length ≤ lineLimit) :
      KeptAs digest e time (e.oversize.rendering digest time)

theorem answer_logLine_of_keptAs (hp : p.Digests digest) {e : Event} {time kept : Bytes}
    (h : e.KeptAs digest time kept) (calls : Nat) :
    ∃ after, answer (e.logLine? p time) calls = (.ok (some kept), after) := by
  obtain ⟨after, hline⟩ := answer_line hp e time lineLimit calls
  rw [logLine?, answer_bind, hline]
  cases h with
  | own h =>
      rw [if_pos h]
      exact ⟨after, rfl⟩
  | oversize h hoversize =>
      obtain ⟨final, hreplaced⟩ := answer_line hp e.oversize time lineLimit after
      rw [if_neg (Nat.not_le.mpr h)]
      rw [if_pos hoversize] at hreplaced
      exact ⟨final, hreplaced⟩

end Event

end SignedAudit
