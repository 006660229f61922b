import SignedAudit.Logger

namespace SignedAudit.Bus

/-! # The event bus

An event goes to the subscribers that are there when its publication begins, one after the other, until
one fails. While the bus delivers an event, it delivers no other: a publication from inside a subscriber is
only noted on the console. The bus is ready again after every publication, also after a failed one. -/

open Effect

/-- The note on a publication from inside a subscriber. -/
def reentrancyNote : Bytes :=
  Json.object
    [Json.member (Bytes.ascii "event") (Json.quoted (Bytes.ascii "event_bus_reentrancy")),
      Json.member (Bytes.ascii "message") (Json.quoted (Bytes.ascii "recursive publish suppressed"))]
  ++ [Ascii.newline]

/-- Adds a subscriber behind all others. -/
def subscribe (subscriber : Subscriber) : Effect Unit :=
  modify fun s => { s with subscribers := s.subscribers ++ [subscriber] }

/-- Leaves the default logger as the only subscriber. -/
def reset : Effect Unit := modify fun s => { s with subscribers := [.logger] }

/-- Takes note of an event under a listener's name. -/
def note (name : Bytes) (e : Event) : Effect Unit :=
  modify fun s => { s with delivered := s.delivered ++ [(name, e)] }

/-- What a subscriber does with an event; `publish` is how it publishes in its turn. -/
def notify (publish : Event → Effect Unit) (e : Event) : Subscriber → Effect Unit
  | .logger => do (← get).logger.log e
  | .idle => return
  | .recorder name => note name e
  | .republisher name eventId => do
    note name e
    publish { e with id := eventId }
  | .failing name failure => do
    note name e
    throw failure
  | .recruiter name newcomer => do
    note name e
    subscribe newcomer

/-- Publishes an event, with at most `depth` publications inside one another. A publication inside
another one is never delivered, so that one level is enough. -/
def publishAt : (depth : Nat) → Event → Effect Unit
  | 0, _ => write .console reentrancyNote
  | depth + 1, e => do
    let s ← get
    if s.publishing then write .console reentrancyNote
    else
      set { s with publishing := true }
      let outcome ← attempt (s.subscribers.forM (notify (publishAt depth) e))
      modify fun s => { s with publishing := false }
      Effect.ofExcept outcome

/-- Publishes an event. -/
def publish (e : Event) : Effect Unit := publishAt 1 e

end SignedAudit.Bus
