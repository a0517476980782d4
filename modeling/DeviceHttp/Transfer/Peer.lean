import DeviceHttp.Text.Utf8

/-!
# The other end of a connection

A connection is described by what it still has in store: the pieces that will arrive, in order, with
the failures between them, and the sends that it will accept. This is all that a client can learn of
a peer, since the client decides when it sends and how much it takes at a time. Every run is finite
because `Peer.bytesLeft` is: a receive gives at most the room it is offered, and what it gives is
gone (`Peer.length_receive_add_bytesLeft`).
-/

namespace DeviceHttp

/-- What a receive finds. -/
inductive Arrival
  | data (bytes : Bytes)
  /-- The end of the stream. -/
  | ended
  /-- The transport reports a failure. -/
  | failure
  deriving DecidableEq, Repr

/-- The bytes that arrive. -/
def Arrival.bytes : Arrival → Bytes
  | data bytes => bytes
  | _ => []

/-- The other end of an open connection. -/
structure Peer where
  arrivals : List Arrival
  /-- Whether a receive goes on with the next piece while it has room. -/
  greedy : Bool := false
  /-- The receive after which the peer hangs up, counted from one. -/
  hangUpAfter : Option Nat := none
  /-- How many bytes the peer accepts in all. -/
  sendLimit : Option Nat := none
  /-- The send that fails, counted from zero. -/
  failingSend : Option Nat := none
  isConnected : Bool := true
  /-- How many receives there were. -/
  receives : Nat := 0
  /-- How many sends there were. -/
  sends : Nat := 0
  /-- How many bytes were accepted. -/
  accepted : Nat := 0
  deriving DecidableEq, Repr

namespace Peer

/-- How many bytes will still arrive. -/
def bytesLeft (p : Peer) : Nat :=
  (p.arrivals.flatMap Arrival.bytes).length

/-- The pieces at the front of a list of arrivals, as far as there is room; a piece that does not
fit whole leaves its rest. -/
def gather : (room : Nat) → List Arrival → Bytes × List Arrival
  | room, .data bytes :: later =>
    if room = 0 then ([], .data bytes :: later)
    else if bytes.length ≤ room then
      let gathered := gather (room - bytes.length) later
      (bytes ++ gathered.1, gathered.2)
    else (bytes.take room, .data (bytes.drop room) :: later)
  | _, later => ([], later)

/-- The next piece of a list of arrivals, as far as there is room; `none` is a failure. -/
def next (greedy : Bool) (room : Nat) : List Arrival → Option Bytes × List Arrival
  | [] => (some [], [])
  | .ended :: later => (some [], later)
  | .failure :: later => (none, later)
  | .data bytes :: later =>
    if greedy ∧ bytes ≠ [] then
      let gathered := gather room (.data bytes :: later)
      (some gathered.1, gathered.2)
    else
      (some (bytes.take room),
        if bytes.drop room = [] then later else .data (bytes.drop room) :: later)

/-- Receive at most `room` bytes. None at all is the end of the stream, and `none` is a failure. A
peer that has nothing left hangs up. -/
def receive (room : Nat) (p : Peer) : Option Bytes × Peer :=
  let taken := next p.greedy room p.arrivals
  (taken.1,
    { p with
      arrivals := taken.2
      receives := p.receives + 1
      isConnected :=
        p.isConnected && !p.arrivals.isEmpty && p.hangUpAfter ≠ some (p.receives + 1) })

/-- Offer bytes. The answer is how many of them are accepted, and `none` is a failure. -/
def send (bytes : Bytes) (p : Peer) : Option Nat × Peer :=
  if p.failingSend = some p.sends then (none, { p with sends := p.sends + 1 })
  else
    let accepted :=
      if p.isConnected = false then 0
      else match p.sendLimit with
        | none => bytes.length
        | some limit => min bytes.length (limit - p.accepted)
    (some accepted, { p with sends := p.sends + 1, accepted := p.accepted + accepted })

theorem length_gather_le (room : Nat) (as : List Arrival) : (gather room as).1.length ≤ room := by
  fun_induction gather room as with
  | case1 => simp
  | case2 room bytes later h0 hle gathered ih =>
    simp only [gathered, List.length_append]
    omega
  | case3 => simp only [List.length_take]; omega
  | case4 => simp

theorem length_gather_add (room : Nat) (as : List Arrival) :
    (gather room as).1.length + ((gather room as).2.flatMap Arrival.bytes).length
      = (as.flatMap Arrival.bytes).length := by
  fun_induction gather room as with
  | case1 => simp
  | case2 room bytes later h0 hle gathered ih =>
    simp only [gathered, List.length_append, List.flatMap_cons, Arrival.bytes]
    omega
  | case3 =>
    simp only [List.length_take, List.flatMap_cons, List.length_append, Arrival.bytes,
      List.length_drop]
    omega
  | case4 => simp

theorem length_next_le (greedy : Bool) (room : Nat) (as : List Arrival) :
    ((next greedy room as).1.getD []).length ≤ room := by
  unfold next
  split
  · simp
  · simp
  · simp
  · split
    · exact length_gather_le room _
    · simp only [Option.getD_some, List.length_take]
      omega

theorem length_next_add (greedy : Bool) (room : Nat) (as : List Arrival) :
    ((next greedy room as).1.getD []).length + ((next greedy room as).2.flatMap Arrival.bytes).length
      = (as.flatMap Arrival.bytes).length := by
  unfold next
  split
  · simp
  · simp [Arrival.bytes]
  · simp [Arrival.bytes]
  · split
    · exact length_gather_add room _
    · simp only [Option.getD_some, List.length_take, List.flatMap_cons, List.length_append,
        Arrival.bytes]
      split
      · next hd =>
        have := List.drop_eq_nil_iff.1 hd
        omega
      · simp only [List.flatMap_cons, List.length_append, Arrival.bytes, List.length_drop]
        omega

/-- A receive gives at most the room it is offered. -/
theorem length_receive_le (room : Nat) (p : Peer) :
    ((p.receive room).1.getD []).length ≤ room :=
  length_next_le p.greedy room p.arrivals

/-- What a receive gives is gone, and nothing else is. -/
theorem length_receive_add_bytesLeft (room : Nat) (p : Peer) :
    ((p.receive room).1.getD []).length + (p.receive room).2.bytesLeft = p.bytesLeft :=
  length_next_add p.greedy room p.arrivals

end Peer

end DeviceHttp
