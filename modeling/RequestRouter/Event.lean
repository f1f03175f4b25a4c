/-
  Events that the router reports while it works, and
  computations that report events.

  Key definitions include:
    * `Event`
    * `Traced`
    * `Traced.emit`
-/

------------------------------------------------------------
-- Events
------------------------------------------------------------

namespace RequestRouter

/- How important an event is, least important first. -/
inductive Level where
  | debug
  | info
  | warn
  | error
  deriving DecidableEq, Repr

namespace Level

/- The rank of a level; a higher rank is more important. -/
def rank : Level → Nat
  | .debug => 1
  | .info => 2
  | .warn => 3
  | .error => 4

/- The name of a level in reports. -/
def name : Level → String
  | .debug => "DEBUG"
  | .info => "INFO"
  | .warn => "WARN"
  | .error => "ERROR"

end Level

/- The value of an event's field. -/
inductive FieldValue where
  | text (value : String)
  | count (value : Nat)
  | flag (value : Bool)
  deriving DecidableEq, Repr

/- An event: its source, its message if any, its fields. -/
structure Event where
  level : Level
  target : String
  message : Option String
  fields : List (String × FieldValue)
  deriving DecidableEq, Repr

end RequestRouter

------------------------------------------------------------
-- Traced Computations
------------------------------------------------------------

namespace RequestRouter

/- A value with the events reported on the way to it. -/
structure Traced (α : Type) where
  events : List Event
  value : α

namespace Traced

/- A value without events. -/
def silent
    {α : Type}
    (value : α) : Traced α :=
  ⟨[], value⟩

/- Go on from a value, with the events of both parts. -/
def andThen
    {α β : Type}
    (first : Traced α)
    (next : α → Traced β) : Traced β :=
  let second := next first.value
  ⟨first.events ++ second.events, second.value⟩

/- Report one event. -/
def emit
    (event : Event) : Traced Unit :=
  ⟨[event], ()⟩

instance : Monad Traced where
  pure := silent
  bind := andThen

/- The value of a sequence comes from the values alone. -/
@[simp]
theorem value_bind
    {α β : Type}
    (first : Traced α)
    (next : α → Traced β) :
    (first >>= next).value = (next first.value).value :=
  rfl

/- The events of a sequence are those of its parts. -/
@[simp]
theorem events_bind
    {α β : Type}
    (first : Traced α)
    (next : α → Traced β) :
    (first >>= next).events =
      first.events ++ (next first.value).events :=
  rfl

end Traced

end RequestRouter
