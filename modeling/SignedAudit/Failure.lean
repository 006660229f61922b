import SignedAudit.Bytes

namespace SignedAudit

/-! # Failures

A `Fault` is a failure in this library's own terms: the part of the system it belongs to, a code out of
that part's range, a message, and whether trying again may help. A `Failure` is a fault or any other
error that a component from outside raises with a mere text. Whoever reports a failure reads its message
as zero-terminated text, `Failure.what`. -/

/-- The part of the system that a fault belongs to. -/
inductive Domain
  | security
  | io
  | crypto
  | validation
  | config
  | internal
  deriving DecidableEq, Repr

namespace Domain

/-- The first code of a domain. -/
def first : Domain → Int
  | security => 0x100
  | io => 0x200
  | crypto => 0x300
  | validation => 0x400
  | config => 0x500
  | internal => 0x7f00

/-- The last code of a domain; each has 256. -/
def last (d : Domain) : Int := d.first + 0xff

/-- Is the code one of the domain's? -/
def owns (d : Domain) (code : Int) : Bool := d.first ≤ code && code ≤ d.last

end Domain

/-- May trying again help? -/
inductive Retry
  | fatal
  | transient
  | retryable
  deriving DecidableEq, Repr

/-- A failure in this library's own terms. -/
structure Fault where
  domain : Domain
  code : Int
  message : Bytes
  /-- The error number of the operating system, if one was behind it. -/
  native : Option Int := none
  retry : Retry := .fatal
  deriving DecidableEq, Repr

/-- A failure of any kind. -/
inductive Failure
  | fault (f : Fault)
  | other (message : Bytes)
  deriving DecidableEq, Repr

/-- The text of a failure, up to its first zero byte. -/
def Failure.what : Failure → Bytes
  | .fault f => f.message.untilZero
  | .other message => message.untilZero

end SignedAudit
