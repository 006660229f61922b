import SignedAudit.Proofs.OneLine

namespace SignedAudit

/-! # What sinks gain

The texts that a log writes are kept apart from the sinks that hold them: a line is a text for one sink, and what
happens to a system is told by the lines that its sinks gain, one behind the other. A log comes to one line at
most, for its own sink, or for the console if the event is lost because the provider failed. Opening a file
gives no sink anything and takes nothing from it. -/

open Consultation

/-! ## Lines for sinks -/

/-- A text that is written to a sink. -/
structure Line where
  sink : Sink
  text : Bytes
  deriving DecidableEq, Repr

/-- What lines add to a sink: the texts of those that are for it. -/
def Line.textIn (sink : Sink) (lines : List Line) : Bytes :=
  lines.flatMap fun line => if line.sink = sink then line.text else []

@[simp] theorem Line.textIn_nil (sink : Sink) : textIn sink [] = [] := rfl

@[simp] theorem Line.textIn_append (sink : Sink) (lines more : List Line) :
    textIn sink (lines ++ more) = textIn sink lines ++ textIn sink more :=
  List.flatMap_append

theorem Line.textIn_singleton (sink : Sink) (line : Line) :
    textIn sink [line] = if line.sink = sink then line.text else [] := by
  simp [textIn]

namespace System

/-- **What sinks gain**: the lines that are for them, behind what they held, and nothing else. A sink that can be
written to stays so. -/
structure Gains (s : System) (lines : List Line) (t : System) : Prop where
  written : ∀ sink, t.written sink = s.written sink ++ Line.textIn sink lines
  isOpen : ∀ sink, s.IsOpen sink → t.IsOpen sink

/-- Where no text and no file is another one, nothing is gained. -/
theorem gains_of_eq {s t : System} (hconsole : t.console = s.console) (hstreams : t.streams = s.streams)
    (hfiles : t.files = s.files) : s.Gains [] t where
  written sink := by
    cases sink <;> simp [System.written, hconsole, hstreams, hfiles]
  isOpen sink h := by
    cases sink <;> simp_all [IsOpen]

theorem gains_refl (s : System) : s.Gains [] s := gains_of_eq rfl rfl rfl

/-- What is gained later stands behind what was gained before. -/
theorem Gains.trans {s t u : System} {lines more : List Line} (h : s.Gains lines t) (h' : t.Gains more u) :
    s.Gains (lines ++ more) u where
  written sink := by rw [h'.written, h.written, Line.textIn_append, List.append_assoc]
  isOpen sink hs := h'.isOpen sink (h.isOpen sink hs)

theorem isOpen_write {s : System} {other : Sink} (h : s.IsOpen other) (sink : Sink) (text : Bytes) :
    (s.write sink text).IsOpen other := by
  cases other with
  | console => trivial
  | stream name => trivial
  | file q =>
      obtain ⟨content, hcontent⟩ := h
      cases sink with
      | console => exact ⟨content, hcontent⟩
      | stream name => exact ⟨content, hcontent⟩
      | file place =>
          simp only [IsOpen, System.write, FileTree.node?_append, hcontent]
          split
          · exact ⟨content ++ text, rfl⟩
          · exact ⟨content, rfl⟩

/-- Writing is the gain of one line. -/
theorem gains_write {s : System} {sink : Sink} (h : s.IsOpen sink) (text : Bytes) :
    s.Gains [⟨sink, text⟩] (s.write sink text) where
  written other := by
    rw [written_write h, Line.textIn_singleton]
    simp only [eq_comm]
  isOpen other hother := isOpen_write hother sink text

end System

/-! ## Opening a file -/

namespace FileTree

/-- **A file that is opened** was there and the tree stays as it is, or nothing was there and it is empty. -/
theorem openAppend_eq_ok {t opened : FileTree} {path : Bytes} {place : Place}
    (h : t.openAppend path = .ok (place, opened)) :
    (∃ content, t.node? place = some (.file content) ∧ opened = t)
      ∨ t.node? place = none ∧ opened = t.put place (.file []) := by
  unfold openAppend at h
  simp only [bind, Except.bind] at h
  split at h
  · cases h
  · split at h
    · cases h
    · next content hnode =>
        cases h
        exact .inl ⟨content, hnode, rfl⟩
    · next hnode =>
        cases h
        exact .inr ⟨hnode, rfl⟩

end FileTree

namespace System

/-- **Opening a file truncates nothing**: no sink holds another text than before, and the file can be written to. -/
theorem gains_openAppend {s : System} {path : Bytes} {place : Place} {opened : FileTree}
    (h : s.files.openAppend path = .ok (place, opened)) :
    s.Gains [] { s with files := opened } ∧ IsOpen { s with files := opened } (.file place) := by
  rcases FileTree.openAppend_eq_ok h with ⟨content, hnode, rfl⟩ | ⟨hnode, rfl⟩
  · exact ⟨s.gains_refl, content, hnode⟩
  · have hplace : place ≠ [] := by
      rintro rfl
      cases hnode
    refine ⟨⟨?_, ?_⟩, [], by simp [FileTree.node?_put hplace]⟩
    · intro sink
      cases sink with
      | console => simp [System.written]
      | stream name => simp [System.written]
      | file q =>
          -- the new file holds as much as one that is not there
          by_cases hself : q = place
          · simp [System.written, FileTree.node?_put hplace, hself, hnode]
          · simp [System.written, FileTree.node?_put hplace, hself]
    · intro sink hsink
      cases sink with
      | console => trivial
      | stream name => trivial
      | file q =>
          obtain ⟨content, hcontent⟩ := hsink
          refine ⟨content, ?_⟩
          have hother : q ≠ place := by
            rintro rfl
            simp [hnode] at hcontent
          simp [FileTree.node?_put hplace, hother, hcontent]

end System

/-! ## Logging -/

/-- The line that the provider of a system makes of an event next, if one is kept. -/
def Event.lineIn (e : Event) (s : System) : Except Failure (Option Bytes) :=
  (answer (e.logLine? s.provider s.now.logText) s.calls).1

namespace Logger

/-- **What a log writes**: nothing for an event below its least severity or one of which no line is kept, and
otherwise the line for its own sink; a fault of the provider is reported to the console. -/
def lines (logger : Logger) (e : Event) (s : System) : List Line :=
  if e.severity.rank < logger.minimum.rank then []
  else
    match e.lineIn s with
    | .ok (some line) => [⟨logger.sink, line ++ [Ascii.newline]⟩]
    | .ok none => []
    | .error (.fault f) => [⟨.console, lossReport (.fault f)⟩]
    | .error (.other _) => []

/-- **Logging is the gain of what a log writes.** -/
theorem gains_log {s : System} {logger : Logger} (h : s.IsOpen logger.sink) (e : Event) :
    s.Gains (logger.lines e s) ((logger.log e).perform s).2 := by
  have hcounted : ∀ calls : Nat, s.Gains [] { s with calls } := fun calls => System.gains_of_eq rfl rfl rfl
  have hwritten : ∀ (calls : Nat) (sink : Sink) (text : Bytes), s.IsOpen sink →
      s.Gains [⟨sink, text⟩] ({ s with calls }.write sink text) := by
    intro calls sink text hsink
    have hopen : System.IsOpen { s with calls } sink := (hcounted calls).isOpen sink hsink
    exact (hcounted calls).trans (System.gains_write hopen text)
  unfold lines Event.lineIn
  split
  · next hlt =>
      rw [perform_log_of_lt hlt]
      exact s.gains_refl
  · next hle =>
      rw [perform_log_of_le (Nat.not_lt.mp hle)]
      rcases answer (e.logLine? s.provider s.now.logText) s.calls with
        ⟨(f | message) | _ | line, calls⟩
      · exact hwritten calls .console _ trivial
      · exact hcounted calls
      · exact hcounted calls
      · exact hwritten calls logger.sink _ h

/-- A line of a log is the one for its own sink, or the report that it is lost. -/
theorem mem_lines {logger : Logger} {e : Event} {s : System} {line : Line} (h : line ∈ logger.lines e s) :
    logger.minimum.rank ≤ e.severity.rank
      ∧ ((∃ text, e.lineIn s = .ok (some text) ∧ line = ⟨logger.sink, text ++ [Ascii.newline]⟩)
        ∨ ∃ f, e.lineIn s = .error (.fault f) ∧ line = ⟨.console, lossReport (.fault f)⟩) := by
  unfold lines at h
  split at h
  · cases h
  · next hle =>
      refine ⟨Nat.not_lt.mp hle, ?_⟩
      split at h <;> simp_all

/-- A log writes one line at most for an event. -/
theorem length_lines_le (logger : Logger) (e : Event) (s : System) : (logger.lines e s).length ≤ 1 := by
  unfold lines
  split
  · exact Nat.zero_le 1
  · split <;> simp

/-- A line that is kept is written. -/
theorem lines_of_kept {logger : Logger} {e : Event} {s : System} (h : logger.minimum.rank ≤ e.severity.rank)
    {text : Bytes} (htext : e.lineIn s = .ok (some text)) :
    logger.lines e s = [⟨logger.sink, text ++ [Ascii.newline]⟩] := by
  rw [lines, if_neg (Nat.not_lt.mpr h), htext]

end Logger

end SignedAudit
