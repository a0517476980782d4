import DeviceHttp.Body.Sink

/-!
# What a transaction does

A transaction is seen from outside as the list of what it does to the network and to its sink, in
order. The two views `networkEvents` and `deliveries` split that list.
-/

namespace DeviceHttp

/-- One thing that a transaction does. -/
inductive Event
  /-- Ask for a connection. -/
  | connect (host : String) (port : UInt16) (accepted : Bool)
  /-- Offer bytes; the answer is how many were accepted, `none` a failure. -/
  | send (bytes : Bytes) (timeout : Nat) (accepted : Option Nat)
  /-- Wait for at least `minimum` bytes with room for `room`; `none` is a failure. -/
  | receive (room minimum timeout : Nat) (bytes : Option Bytes)
  /-- Close the connection. -/
  | close
  /-- Call the sink. -/
  | deliver (call : Delivery)
  deriving DecidableEq, Repr

namespace Event

/-- The call to the sink, if the event is one. -/
def delivery? : Event → Option Delivery
  | deliver call => some call
  | _ => none

/-- Whether an event is seen on the network. -/
def isNetwork (e : Event) : Bool :=
  e.delivery?.isNone

end Event

/-- The calls to the sink in a list of events. -/
def deliveries (events : List Event) : List Delivery :=
  events.filterMap Event.delivery?

/-- What a list of events shows on the network. -/
def networkEvents (events : List Event) : List Event :=
  events.filter Event.isNetwork

@[simp] theorem deliveries_append (xs ys : List Event) :
    deliveries (xs ++ ys) = deliveries xs ++ deliveries ys := by
  simp [deliveries]

end DeviceHttp
