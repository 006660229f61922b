import SignedAudit.Bytes

namespace SignedAudit

/-! # Events

What components report about themselves: a category, a severity, an identifier, a message and a list of
fields. Each field says how much of its value may be shown. A key that speaks of a secret or a password
overrules what the field says, see `Field.disclosure`. -/

/-- How grave an event is. -/
inductive Severity
  | debug
  | info
  | warning
  | error
  | critical
  deriving DecidableEq, Repr

namespace Severity

/-- All severities, the least first. -/
def all : List Severity := [debug, info, warning, error, critical]

/-- The position of a severity among all. -/
def rank : Severity → Nat
  | debug => 0
  | info => 1
  | warning => 2
  | error => 3
  | critical => 4

/-- The name of a severity. -/
def name : Severity → Bytes
  | debug => Bytes.ascii "debug"
  | info => Bytes.ascii "info"
  | warning => Bytes.ascii "warning"
  | error => Bytes.ascii "error"
  | critical => Bytes.ascii "critical"

/-- The severity of exactly this name. -/
def ofName? (text : Bytes) : Option Severity := all.find? fun s => text == s.name

end Severity

/-- What an event is about. -/
inductive Category
  | telemetry
  | lifecycle
  | security
  | diagnostics
  deriving DecidableEq, Repr

/-- The name of a category. -/
def Category.name : Category → Bytes
  | telemetry => Bytes.ascii "telemetry"
  | lifecycle => Bytes.ascii "lifecycle"
  | security => Bytes.ascii "security"
  | diagnostics => Bytes.ascii "diagnostics"

/-- How much of a field may be shown: its value, nothing, or a digest. -/
inductive Privacy
  | plain
  | redacted
  | hashed
  deriving DecidableEq, Repr

/-- A named value of an event. A numeric value is a numeral and is shown without quotes. -/
structure Field where
  key : Bytes
  value : Bytes
  privacy : Privacy := .plain
  numeric : Bool := false
  deriving DecidableEq, Repr

namespace Field

/-- Does the key speak of a secret or a password, in any case of ASCII letters? -/
def namesSecret (f : Field) : Bool :=
  Bytes.occursIn (Bytes.ascii "secret") f.key.lower
    || Bytes.occursIn (Bytes.ascii "password") f.key.lower

/-- How much of the field is shown in the end. -/
def disclosure (f : Field) : Privacy := if f.namesSecret then .redacted else f.privacy

end Field

/-- A report of a component. -/
structure Event where
  category : Category := .diagnostics
  severity : Severity := .info
  id : Bytes := []
  message : Bytes := []
  fields : List Field := []
  deriving DecidableEq, Repr

end SignedAudit
