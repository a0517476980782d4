import DeviceHttp.Transfer.Client

/-!
# What is done with a client

A client is used in a list of calls, between which its network may get more connections. Setters that
fail leave the client as it was. `Client.callAll` is the client after such a history, with the log of
each call; what every call keeps, every history keeps.
-/

namespace DeviceHttp

/-- Something that is done with a client. -/
inductive Client.Call
  | setCredentials (user password : String)
  | clearCredentials
  | setHeaders (pairs : List (String × String))
  | clearHeaders
  | setAttempts (n : Nat)
  /-- Connections become possible. -/
  | addConnections (peers : List (Option Peer))
  /-- A transaction, of whatever method. -/
  | execute (method : Method) (address : String) (source : Option Source) (timeout : Nat)
  | getText (address : String) (buffer : Bytes) (limit timeout : Nat)

namespace Client

/-- The client after a call, and what was done. -/
def call (c : Client) : Call → Client × List Event
  | .setCredentials user password => ((c.setCredentials user password).toOption.getD c, [])
  | .clearCredentials => (c.clearCredentials, [])
  | .setHeaders pairs => ((c.setHeaders pairs).toOption.getD c, [])
  | .clearHeaders => (c.clearHeaders, [])
  | .setAttempts n => (c.setAttempts n, [])
  | .addConnections peers => (c.addConnections peers, [])
  | .execute method address source timeout =>
    let t := c.execute method address source timeout
    (t.client, t.events)
  | .getText address buffer limit timeout =>
    let t := (c.getText address buffer limit timeout).1
    (t.client, t.events)

/-- The client after a list of calls, and the log of each of them. -/
def callAll (c : Client) : List Call → Client × List (List Event)
  | [] => (c, [])
  | call :: calls =>
    let first := c.call call
    let later := first.1.callAll calls
    (later.1, first.2 :: later.2)

/-- The log of a call is empty or that of a transaction. -/
theorem call_cases (c : Client) (call : Call) :
    (c.call call).2 = [] ∨
      ∃ method address source timeout,
        c.call call = ((c.execute method address source timeout).client,
          (c.execute method address source timeout).events) := by
  cases call with
  | execute method address source timeout => exact .inr ⟨method, address, source, timeout, rfl⟩
  | getText address buffer limit timeout => exact .inr ⟨.get, address, none, timeout, rfl⟩
  | _ => exact .inl rfl

end Client

end DeviceHttp
