import DeviceHttp.Body.TextSink
import DeviceHttp.Transfer.Credentials
import DeviceHttp.Transfer.Request
import DeviceHttp.Transfer.Response

/-!
# The client

A transaction makes one or more attempts. Each attempt opens a connection, sends a request, reads the
response and closes the connection, whatever happened on it. A response that names a location is
followed by another attempt while the budget lasts; the last attempt takes the response as it is.

The client remembers the status and the location that it saw last. Credentials, headers and budget
stay as they are until they are changed, and no transaction changes them
(`Client.settings_execute`).
-/

namespace DeviceHttp

/-- A client and the connections that it will get: each entry is the peer behind the next one, and an
entry without a peer is a connection that is refused. -/
structure Client where
  window : Window
  /-- The connections to come; when there are no more, every one is refused. -/
  network : List (Option Peer) := []
  authorization : Option String := none
  headers : List Header := []
  /-- How many attempts one transaction may make; at least one is made. -/
  attempts : Nat := 1
  /-- The status of the last response, zero before there is one. -/
  status : Nat := 0
  /-- The last location that a response named. -/
  location : Option String := none

/-- What a transaction leaves: its result, the client, the body it sent as far as it is unread, and
what was done. -/
structure Transaction (α : Type) where
  result : Except TransferError α
  client : Client
  source : Option Source
  events : List Event

namespace Transaction

/-- What the transaction did to its sink. -/
def deliveries {α : Type} (t : Transaction α) : List Delivery :=
  DeviceHttp.deliveries t.events

/-- A sink after the transaction. -/
def into {α σ : Type} [Sink σ] (t : Transaction α) (s : σ) : σ :=
  Sink.acceptAll s t.deliveries

/-- The transaction after something else was done. -/
def after {α : Type} (events : List Event) (t : Transaction α) : Transaction α :=
  { t with events := events ++ t.events }

end Transaction

namespace Client

/-- The size of a working buffer where none is chosen. -/
def defaultCapacity : Nat := 256

/-- The attempts of a transaction where no number is chosen. -/
def defaultAttempts : Nat := 1

/-- A client with a working buffer of this size. -/
def new (capacity : Nat) (capacity_pos : 0 < capacity := by decide) : Client where
  window := { capacity, capacity_pos }
  attempts := defaultAttempts

/-! ## Settings -/

/-- Send these credentials with every request. -/
def setCredentials (user password : String) (c : Client) : Except TransferError Client :=
  match Credentials.token user password with
  | .ok token => .ok { c with authorization := some token }
  | .error e => .error e

/-- Send no credentials. -/
def clearCredentials (c : Client) : Client :=
  { c with authorization := none }

/-- Send these headers with every request, in place of the ones before. -/
def setHeaders (pairs : List (String × String)) (c : Client) : Except TransferError Client :=
  match Header.list pairs with
  | .ok headers => .ok { c with headers }
  | .error e => .error e

/-- Send no headers of the caller's. -/
def clearHeaders (c : Client) : Client :=
  { c with headers := [] }

/-- Make at most so many attempts in a transaction, and at least one. -/
def setAttempts (n : Nat) (c : Client) : Client :=
  { c with attempts := max n 1 }

/-- Connections to come, after those that are there. -/
def addConnections (peers : List (Option Peer)) (c : Client) : Client :=
  { c with network := c.network ++ peers }

/-! ## One attempt -/

/-- What an attempt leads to. -/
inductive Step
  /-- The response was read to its end. -/
  | complete
  /-- The response named this location, which is to be followed. -/
  | redirect (location : String)
  deriving DecidableEq, Repr

/-- The statuses that are not errors. -/
def accepts (status : Nat) : Bool :=
  200 ≤ status && status < 400

/-- Read a response. -/
def readResponse (follow : Bool) (x : Exchange) : Exchange.Outcome Step :=
  match x.readStatus with
  | .error e x => .error e x
  | .ok status x =>
    if accepts status then
      match x.readHeaders follow {} with
      | .error e x => .error e x
      | .ok (.redirect location) x => .ok (.redirect location) x
      | .ok (.body framing) x =>
        match x.readBody framing with
        | .error e x => .error e x
        | .ok _ x => .ok .complete x
    else .error (.status status) x

/-- Send a request and read its response. -/
def converse (head : RequestHead) (follow : Bool) (x : Exchange) : Exchange.Outcome Step :=
  match x.sendHead head with
  | .error e x => .error e x
  | .ok _ x =>
    match x.sendBody with
    | .error e x => .error e x
    | .ok _ x => readResponse follow { x with window := x.window.clear }

/-- The head of a request of this client. -/
def requestHead (c : Client) (method : Method) (url : Url) (source : Option Source) :
    RequestHead where
  method
  url
  authorization := c.authorization
  headers := c.headers
  body := source.map fun s => (s.framing, s.contentType)

/-- The start of an exchange with a peer. -/
def startExchange (c : Client) (peer : Peer) (source : Option Source) (timeout : Nat) :
    Exchange where
  peer
  window := c.window.clear
  timeout
  source
  status := c.status
  location := c.location

/-- The client after an exchange. -/
def leave (c : Client) (x : Exchange) : Client :=
  { c with window := x.window, status := x.status, location := x.location }

/-- One request and its response on a connection of their own, which is closed in any case. -/
def exchangeWith (c : Client) (peer : Peer) (head : RequestHead) (source : Option Source)
    (follow : Bool) (timeout : Nat) : Transaction Step :=
  match converse head follow (c.startExchange peer source timeout) with
  | .ok step x => ⟨.ok step, c.leave x, x.source, x.trace ++ [.close]⟩
  | .error e x => ⟨.error e, c.leave x, x.source, x.trace ++ [.close]⟩

/-- One attempt: open a connection to the host of a URL, and make the exchange on it. A source is
read from its start on every attempt. -/
def attempt (c : Client) (method : Method) (address : String) (source : Option Source)
    (follow : Bool) (timeout : Nat) : Transaction Step :=
  match Url.parse address with
  | .error e => ⟨.error e, c, source, []⟩
  | .ok url =>
    if url.isHttp then
      match c.network with
      | some peer :: later =>
        let source := source.map Source.reset
        (exchangeWith { c with network := later } peer (c.requestHead method url source) source
          follow timeout).after [.connect url.host url.port true]
      | none :: later =>
        ⟨.error .unreachable, { c with network := later }, source,
          [.connect url.host url.port false]⟩
      | [] => ⟨.error .unreachable, c, source, [.connect url.host url.port false]⟩
    else ⟨.error .malformedUrl, c, source, []⟩

/-! ## Transactions -/

/-- Attempts from an address on, the first one and at most `redirects` more. -/
def follow (method : Method) (timeout : Nat) :
    (redirects : Nat) → (address : String) → Option Source → Client → Transaction Unit
  | 0, address, source, c =>
    let t := c.attempt method address source false timeout
    match t.result with
    | .error e => ⟨.error e, t.client, t.source, t.events⟩
    | .ok .complete => ⟨.ok (), t.client, t.source, t.events⟩
    | .ok (.redirect _) => ⟨.error .protocol, t.client, t.source, t.events⟩
  | redirects + 1, address, source, c =>
    let t := c.attempt method address source true timeout
    match t.result with
    | .error e => ⟨.error e, t.client, t.source, t.events⟩
    | .ok .complete => ⟨.ok (), t.client, t.source, t.events⟩
    | .ok (.redirect location) =>
      (follow method timeout redirects location t.source t.client).after t.events

/-- A transaction. The sink is reset first. -/
def execute (method : Method) (address : String) (source : Option Source) (timeout : Nat)
    (c : Client) : Transaction Unit :=
  (follow method timeout (c.attempts - 1) address source { c with status := 0 }).after
    [.deliver .reset]

/-- Fetch a resource. -/
def get (address : String) (timeout : Nat) (c : Client) : Transaction Unit :=
  c.execute .get address none timeout

/-- Delete a resource. -/
def delete (address : String) (timeout : Nat) (c : Client) : Transaction Unit :=
  c.execute .delete address none timeout

/-- Send a body to a resource. -/
def post (address : String) (source : Source) (timeout : Nat) (c : Client) : Transaction Unit :=
  c.execute .post address (some source) timeout

/-- Send a body in place of a resource. -/
def put (address : String) (source : Source) (timeout : Nat) (c : Client) : Transaction Unit :=
  c.execute .put address (some source) timeout

/-- Fetch a resource into a buffer, at most `limit` bytes of it. The result is how many there are,
with the whole buffer as it is afterwards. -/
def getText (address : String) (buffer : Bytes) (limit timeout : Nat) (c : Client) :
    Transaction Nat × Bytes :=
  let room := min limit buffer.length
  let t := c.get address timeout
  let sink := t.into { buffer := buffer.take room : TextSink }
  (⟨t.result.map fun _ => sink.length, t.client, t.source, t.events⟩,
    sink.buffer ++ buffer.drop room)

/-! ## What a transaction leaves alone -/

/-- What the caller chose. -/
def settings (c : Client) : Option String × List Header × Nat :=
  (c.authorization, c.headers, c.attempts)

theorem settings_exchangeWith (c : Client) (peer : Peer) (head : RequestHead)
    (source : Option Source) (follow : Bool) (timeout : Nat) :
    (c.exchangeWith peer head source follow timeout).client.settings = c.settings := by
  unfold exchangeWith
  split <;> rfl

theorem settings_attempt (c : Client) (method : Method) (address : String)
    (source : Option Source) (follow : Bool) (timeout : Nat) :
    (c.attempt method address source follow timeout).client.settings = c.settings := by
  unfold attempt
  split
  · rfl
  · split
    · split
      · exact settings_exchangeWith _ _ _ _ _ _
      · rfl
      · rfl
    · rfl

theorem settings_follow (method : Method) (timeout redirects : Nat) (address : String)
    (source : Option Source) (c : Client) :
    (c.follow method timeout redirects address source).client.settings = c.settings := by
  induction redirects generalizing address source c with
  | zero =>
    have := c.settings_attempt method address source false timeout
    unfold follow
    dsimp only
    split <;> exact this
  | succ n ih =>
    have := c.settings_attempt method address source true timeout
    unfold follow
    dsimp only
    split
    · exact this
    · exact this
    · exact (ih _ _ _).trans this

/-- No transaction changes what the caller chose. -/
theorem settings_execute (method : Method) (address : String) (source : Option Source)
    (timeout : Nat) (c : Client) :
    (c.execute method address source timeout).client.settings = c.settings :=
  settings_follow method timeout _ address source _

end Client

end DeviceHttp
