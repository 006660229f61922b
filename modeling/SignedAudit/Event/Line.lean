import SignedAudit.Decimal
import SignedAudit.Event
import SignedAudit.Json
import SignedAudit.Provider

namespace SignedAudit

/-! # Events as lines

The JSON object of an event: the time, the names of severity and category, the identifier and the message
if there are any, and then the fields in their order. A line has a limit on its length; it is put together
member by member, and as soon as a part does not fit there is no line. The digest of a hashed value is
asked for only when everything before the value fits. -/

namespace Event

/-- What stands behind the name of a member. -/
inductive Shown
  | text (t : Bytes)
  | numeral (t : Bytes)
  | fingerprint (value : Bytes)
  deriving DecidableEq, Repr

/-- What is shown of a field. -/
def Shown.ofField (f : Field) : Shown :=
  match f.disclosure with
  | .redacted => .text (Bytes.ascii "[REDACTED]")
  | .hashed => .fingerprint f.value
  | .plain => if f.numeric then .numeral f.value else .text f.value

/-- The members of the line of an event, in their order. -/
def members (e : Event) (time : Bytes) : List (Bytes × Shown) :=
  [(Bytes.ascii "ts", .text time),
    (Bytes.ascii "severity", .text e.severity.name),
    (Bytes.ascii "category", .text e.category.name)]
  ++ (if e.id = [] then [] else [(Bytes.ascii "event_id", .text e.id)])
  ++ (if e.message = [] then [] else [(Bytes.ascii "message", .text e.message)])
  ++ e.fields.map fun f => (f.key, .ofField f)

/-- The text of what is shown. -/
def Shown.render (p : Provider) : Shown → Consultation Bytes
  | .text t => pure (Json.quoted t)
  | .numeral t => pure t
  | .fingerprint value => do
    return Json.quoted (Bytes.ascii "hash:" ++ (← p.fingerprint value))

/-- Writes members and the closing brace into a given room, the first behind the byte `opening` and each
other one behind a comma. -/
def assemble (p : Provider) : (room : Nat) → (opening : UInt8) → List (Bytes × Shown) →
    Consultation (Option Bytes)
  | room, _, [] => pure (if room < 1 then none else some [Ascii.closeBrace])
  | room, opening, (name, shown) :: rest => do
    let key := opening :: Json.quoted name ++ [Ascii.colon]
    if room < key.length then return none
    let value ← shown.render p
    if room - key.length < value.length then return none
    let tail ← assemble p (room - key.length - value.length) Ascii.comma rest
    return tail.map fun text => key ++ value ++ text

/-- The line of an event at a time, if it has at most `limit` bytes. -/
def line (p : Provider) (e : Event) (time : Bytes) (limit : Nat) : Consultation (Option Bytes) :=
  assemble p limit Ascii.openBrace (e.members time)

/-! ## Events that are too long -/

/-- The most bytes of a line in a log. -/
def lineLimit : Nat := 16384

/-- The event that stands for one whose line is too long. -/
def oversize (e : Event) : Event where
  category := .diagnostics
  severity := .warning
  id := Bytes.ascii "event_oversize"
  message := Bytes.ascii "Event payload exceeded logger limits"
  fields :=
    (if e.id = [] then [] else [{ key := Bytes.ascii "original_event_id", value := e.id }])
    ++ [{ key := Bytes.ascii "limit_bytes", value := Decimal.ofNat lineLimit, numeric := true }]

/-- The line that a log keeps of an event: its own, or else the one of the event that stands for it. -/
def logLine? (p : Provider) (e : Event) (time : Bytes) : Consultation (Option Bytes) := do
  match ← e.line p time lineLimit with
  | some text => return some text
  | none => e.oversize.line p time lineLimit

end Event

end SignedAudit
