import DeviceHttp.Body.Source
import DeviceHttp.Transfer.Error
import DeviceHttp.Transfer.Event
import DeviceHttp.Transfer.Peer
import DeviceHttp.Transfer.Window

/-!
# One exchange on one connection

The state of a request and its response while they are on the way, and the two things that all of
them is made of: sending bytes, and waiting for more of them. Every function gives its result with
the state it leaves, because a failure too leaves something behind: the status that was read, the
location that was seen, the source as far as it was read, and the trace.

The loops end because a window can only fill up, and because a peer only has so many bytes left:
`available_fillTo` says that waiting makes no bytes.
-/

namespace DeviceHttp

/-- A request and its response on the way. -/
structure Exchange where
  peer : Peer
  window : Window
  /-- How long each wait may take, in milliseconds. -/
  timeout : Nat
  /-- The body of the request, as far as it is unread. -/
  source : Option Source
  /-- The status of the last response, zero before there is one. -/
  status : Nat
  /-- The last location that a response named. -/
  location : Option String
  /-- What was done so far. -/
  trace : List Event := []

namespace Exchange

/-- A result, or a failure, with the exchange that it leaves. -/
abbrev Outcome (α : Type) := EStateM.Result TransferError Exchange α

/-- The exchange that an outcome leaves. -/
def Outcome.exchange {α : Type} : Outcome α → Exchange
  | .ok _ x => x
  | .error _ x => x

/-- Note what was done. -/
def note (event : Event) (x : Exchange) : Exchange :=
  { x with trace := x.trace ++ [event] }

/-- Call the sink. -/
def deliver (call : Delivery) (x : Exchange) : Exchange :=
  x.note (.deliver call)

/-- Call the sink several times. -/
def deliverAll (calls : List Delivery) (x : Exchange) : Exchange :=
  { x with trace := x.trace ++ calls.map Event.deliver }

/-! ## Sending -/

/-- Send bytes, all of them: a peer that accepts fewer has closed. -/
def send (bytes : Bytes) (x : Exchange) : Outcome Unit :=
  let sent := x.peer.send bytes
  let x := { x with peer := sent.2 }.note (.send bytes x.timeout sent.1)
  match sent.1 with
  | none => .error .connection x
  | some n => if n < bytes.length then .error .closed x else .ok () x

/-- Send pieces one after the other, up to the first failure. -/
def sendAll : List Bytes → Exchange → Outcome Unit
  | [], x => .ok () x
  | piece :: pieces, x =>
    match x.send piece with
    | .error e x => .error e x
    | .ok _ x => sendAll pieces x

/-! ## Receiving -/

/-- Wait for at least `minimum` bytes and take whatever else fits; `none` is a failure. -/
def receive (minimum : Nat) (x : Exchange) : Option Bytes × Exchange :=
  let room := x.window.compact.room
  let received := x.peer.receive room
  (received.1,
    { x with peer := received.2, window := x.window.extend (received.1.getD []) }.note
      (.receive room minimum x.timeout received.1))

theorem capacity_receive (minimum : Nat) (x : Exchange) :
    (x.receive minimum).2.window.capacity = x.window.capacity := rfl

theorem pending_receive (minimum : Nat) (x : Exchange) :
    (x.receive minimum).2.window.pending = x.window.pending ++ (x.receive minimum).1.getD [] := by
  have hle := Peer.length_receive_le x.window.compact.room x.peer
  rw [Window.room_compact] at hle
  show (x.window.extend _).pending = _
  rw [Window.pending_extend]
  congr 1
  rw [List.take_of_length_le]
  · rfl
  · simpa [Window.room_compact] using hle

theorem bytesLeft_receive (minimum : Nat) (x : Exchange) :
    ((x.receive minimum).1.getD []).length + (x.receive minimum).2.peer.bytesLeft
      = x.peer.bytesLeft :=
  Peer.length_receive_add_bytesLeft _ _

/-- Wait until at least `want` bytes are pending, or as many as the window holds. -/
def fillTo (want : Nat) (x : Exchange) : Outcome Unit :=
  let goal := min want x.window.capacity
  if x.window.pending.length < goal then
    if x.peer.isConnected then
      match _h : x.receive (goal - x.window.pending.length) with
      | (none, y) => .error .connection y
      | (some [], y) => .error .closed y
      | (some (_ :: _), y) => fillTo want y
    else .error .closed x
  else .ok () x
termination_by want - x.window.pending.length
decreasing_by
  have hpending := pending_receive (goal - x.window.pending.length) x
  rw [_h] at hpending
  have := congrArg List.length hpending
  simp only [Option.getD_some, List.length_append, List.length_cons] at this
  simp only [goal] at *
  omega

/-- Wait until at least one more byte is pending. -/
def fill (x : Exchange) : Outcome Unit :=
  x.fillTo (x.window.pending.length + 1)

/-- How many bytes the response can still have: those that wait and those that will arrive. -/
def available (x : Exchange) : Nat :=
  x.window.pending.length + x.peer.bytesLeft

theorem available_receive (minimum : Nat) (x : Exchange) :
    (x.receive minimum).2.available = x.available := by
  have h1 := congrArg List.length (pending_receive minimum x)
  have h2 := bytesLeft_receive minimum x
  rw [List.length_append] at h1
  simp only [available]
  omega

/-- Waiting makes no bytes and loses none. -/
theorem available_fillTo (want : Nat) (x : Exchange) :
    (x.fillTo want).exchange.available = x.available := by
  fun_induction fillTo want x with
  | case1 x goal hlt hc x' h =>
    simpa [h, Outcome.exchange] using available_receive (goal - x.window.pending.length) x
  | case2 x goal hlt hc x' h =>
    simpa [h, Outcome.exchange] using available_receive (goal - x.window.pending.length) x
  | case3 x goal hlt hc b bs x' h ih =>
    rw [ih]
    simpa [h] using available_receive (goal - x.window.pending.length) x
  | case4 => rfl
  | case5 => rfl

theorem capacity_fillTo (want : Nat) (x : Exchange) :
    (x.fillTo want).exchange.window.capacity = x.window.capacity := by
  fun_induction fillTo want x with
  | case1 x goal hlt hc x' h =>
    simpa [h, Outcome.exchange] using capacity_receive (goal - x.window.pending.length) x
  | case2 x goal hlt hc x' h =>
    simpa [h, Outcome.exchange] using capacity_receive (goal - x.window.pending.length) x
  | case3 x goal hlt hc b bs x' h ih =>
    rw [ih]
    simpa [h] using capacity_receive (goal - x.window.pending.length) x
  | case4 => rfl
  | case5 => rfl

/-- Waiting that succeeds leaves enough bytes. -/
theorem le_length_of_fillTo {want : Nat} {x x' : Exchange} {u : Unit}
    (h : x.fillTo want = .ok u x') : min want x.window.capacity ≤ x'.window.pending.length := by
  fun_induction fillTo want x with
  | case1 => simp at h
  | case2 => simp at h
  | case3 x goal hlt hc b bs y hy ih =>
    have := capacity_receive (goal - x.window.pending.length) x
    rw [hy] at this
    rw [← this]
    exact ih h
  | case4 => simp at h
  | case5 x goal hge =>
    obtain ⟨rfl, rfl⟩ := EStateM.Result.ok.inj h
    simp only [goal] at hge
    omega

/-! ## Lines -/

/-- Consume bytes at the front. -/
def consume (n : Nat) (x : Exchange) : Exchange :=
  { x with window := x.window.consume n }

/-- Wait until the first line is pending whole. The result is its length without its end; nothing is
consumed. A window that fills up without the end of a line is an error. -/
def readLine (x : Exchange) : Outcome Nat :=
  match x.window.lineLength? with
  | some n => .ok n x
  | none =>
    if _hfull : x.window.isFull then .error .protocol x
    else
      match _h : x.fill with
      | .error e y => .error e y
      | .ok _ y => readLine y
termination_by x.window.capacity - x.window.pending.length
decreasing_by
  have hcap := capacity_fillTo (x.window.pending.length + 1) x
  have hlen := le_length_of_fillTo _h
  have heq : x.fillTo (x.window.pending.length + 1) = x.fill := rfl
  rw [heq, _h] at hcap
  simp only [Outcome.exchange] at hcap
  simp only [Window.isFull, decide_eq_true_eq] at _hfull
  omega

/-- The first so many pending bytes. -/
def front (n : Nat) (x : Exchange) : Bytes :=
  x.window.pending.take n

@[simp] theorem capacity_window_consume (n : Nat) (x : Exchange) :
    (x.consume n).window.capacity = x.window.capacity := by
  simp [consume]

theorem available_consume {n : Nat} {x : Exchange} (h : n ≤ x.window.pending.length) :
    (x.consume n).available + n = x.available := by
  simp only [available, consume, Window.pending_consume, List.length_drop]
  omega

theorem available_consume_le (n : Nat) (x : Exchange) :
    (x.consume n).available ≤ x.available := by
  simp only [available, consume, Window.pending_consume, List.length_drop]
  omega

theorem available_readLine (x : Exchange) : x.readLine.exchange.available = x.available := by
  fun_induction readLine x with
  | case1 => rfl
  | case2 => rfl
  | case3 x _ _ e x' h =>
    have := available_fillTo (x.window.pending.length + 1) x
    rw [show x.fillTo (x.window.pending.length + 1) = x.fill from rfl, h] at this
    exact this
  | case4 x _ _ u x' h ih =>
    have := available_fillTo (x.window.pending.length + 1) x
    rw [show x.fillTo (x.window.pending.length + 1) = x.fill from rfl, h] at this
    rw [ih]
    exact this

theorem capacity_readLine (x : Exchange) :
    x.readLine.exchange.window.capacity = x.window.capacity := by
  fun_induction readLine x with
  | case1 => rfl
  | case2 => rfl
  | case3 x _ _ e x' h =>
    have := capacity_fillTo (x.window.pending.length + 1) x
    rw [show x.fillTo (x.window.pending.length + 1) = x.fill from rfl, h] at this
    exact this
  | case4 x _ _ u x' h ih =>
    have := capacity_fillTo (x.window.pending.length + 1) x
    rw [show x.fillTo (x.window.pending.length + 1) = x.fill from rfl, h] at this
    rw [ih]
    exact this

/-- A line that was read is pending whole, with its end. -/
theorem le_length_of_readLine {x x' : Exchange} {n : Nat} (h : x.readLine = .ok n x') :
    n + 2 ≤ x'.window.pending.length := by
  fun_induction readLine x with
  | case1 x m hm =>
    obtain ⟨rfl, rfl⟩ := EStateM.Result.ok.inj h
    exact Window.lineLength?_le hm
  | case2 => simp at h
  | case3 => simp at h
  | case4 x _ _ u y hy ih => exact ih h

/-- A line that was read and consumed leaves less to read. -/
theorem available_lt_of_readLine {x x' : Exchange} {n : Nat} (h : x.readLine = .ok n x') :
    (x'.consume (n + 2)).available < x.available := by
  have h1 := available_readLine x
  have h2 := available_consume (le_length_of_readLine h)
  rw [h] at h1
  simp only [Outcome.exchange] at h1
  omega

end Exchange

end DeviceHttp
