import DeviceHttp.Transfer.Error
import DeviceHttp.Transfer.Peer

/-!
# The stream behind the pieces

What a peer sends is a stream of bytes and the way it ends; how the stream is cut into arrivals is
the peer's affair. `Peer.stream` and `Peer.ending` forget the cuts, and for a steady peer, one that
delivers non-empty pieces and does not hang up between them, they say all about a receive but the
number of bytes it gives (`Peer.receive_of_stream_eq_nil`, `Peer.receive_of_stream_ne_nil`).

A receive that finds the end pops it, and whatever was scripted behind it becomes visible. So
nothing is said here about a peer after the end was found; no reader asks again.
-/

namespace DeviceHttp

/-- How a stream ends. -/
inductive StreamEnd
  /-- The peer closes. -/
  | closed
  /-- The transport reports a failure. -/
  | failed
  deriving DecidableEq, Repr

namespace StreamEnd

/-- What a receive gives at the end of a stream. -/
def answer : StreamEnd → Option Bytes
  | closed => some []
  | failed => none

/-- The cause that a reader reports when it finds the end too early. -/
def error : StreamEnd → TransferError
  | closed => .closed
  | failed => .connection

theorem error_of_answer_eq_none {ending : StreamEnd} (h : ending.answer = none) :
    ending.error = .connection := by
  cases ending with
  | closed => cases h
  | failed => rfl

theorem error_of_answer_eq_some {ending : StreamEnd} {bytes : Bytes}
    (h : ending.answer = some bytes) : ending.error = .closed := by
  cases ending with
  | closed => rfl
  | failed => cases h

end StreamEnd

namespace Arrival

/-- The bytes up to the end of the stream. -/
def stream : List Arrival → Bytes
  | data bytes :: later => bytes ++ stream later
  | _ => []

/-- The way the stream ends; a list that runs out is a peer that closes. -/
def ending : List Arrival → StreamEnd
  | data _ :: later => ending later
  | failure :: _ => .failed
  | _ => .closed

/-- No piece in front of the end is empty. An empty one would pass for the end. -/
def NonEmptyPieces : List Arrival → Prop
  | data bytes :: later => bytes ≠ [] ∧ NonEmptyPieces later
  | _ => True

/-- Two lists of arrivals with the same rest of the stream behind the bytes `got`. -/
structure Leaves (arrivals : List Arrival) (got : Bytes) (later : List Arrival) : Prop where
  stream : got ++ stream later = Arrival.stream arrivals
  ending : ending later = Arrival.ending arrivals
  nonEmpty : NonEmptyPieces later

/-- A greedy receive takes pieces as long as there is room. What it gives and what it leaves are one
behind the other the stream that there was. -/
theorem leaves_gather (room : Nat) {arrivals : List Arrival} (h : NonEmptyPieces arrivals) :
    Leaves arrivals (Peer.gather room arrivals).1 (Peer.gather room arrivals).2 := by
  fun_induction Peer.gather room arrivals with
  | case1 bytes later => exact ⟨rfl, rfl, h⟩
  | case2 room bytes later hroom hfits gathered ih =>
    obtain ⟨hstream, hending, hpieces⟩ := ih h.2
    refine ⟨?_, hending, hpieces⟩
    rw [List.append_assoc, hstream]
    rfl
  | case3 room bytes later hroom hfits =>
    refine ⟨?_, rfl, ?_, h.2⟩
    · show bytes.take room ++ (bytes.drop room ++ stream later) = bytes ++ stream later
      rw [← List.append_assoc, List.take_append_drop]
    · rw [Ne, List.drop_eq_nil_iff]
      omega
  | case4 room arrivals hdata => exact ⟨rfl, rfl, h⟩

/-- With room for a byte, a stream that goes on gives one. -/
theorem gather_ne_nil {room : Nat} {bytes : Bytes} (later : List Arrival) (hroom : 0 < room)
    (hbytes : bytes ≠ []) : (Peer.gather room (data bytes :: later)).1 ≠ [] := by
  rw [Peer.gather]
  split
  · omega
  · split
    · intro h
      exact hbytes (List.append_eq_nil_iff.1 h).1
    · rw [Ne, List.take_eq_nil_iff]
      rintro (h | h)
      · omega
      · exact hbytes h

/-- A receive with room takes something from a stream that has something left. A greedy one goes on
to the next pieces, and a piece that does not fit is put back. -/
theorem next_of_stream_ne_nil (greedy : Bool) {room : Nat} {arrivals : List Arrival}
    (hroom : 0 < room) (hpieces : NonEmptyPieces arrivals) (h : stream arrivals ≠ []) :
    ∃ got later, Peer.next greedy room arrivals = (some got, later) ∧ got ≠ [] ∧
      Leaves arrivals got later := by
  match arrivals with
  | [] => exact absurd rfl h
  | ended :: later => exact absurd rfl h
  | failure :: later => exact absurd rfl h
  | data bytes :: later =>
    have hbytes : bytes ≠ [] := hpieces.1
    rw [Peer.next]
    split
    · exact ⟨_, _, rfl, gather_ne_nil later hroom hbytes, leaves_gather room hpieces⟩
    · refine ⟨_, _, rfl, ?_, ?_⟩
      · rw [Ne, List.take_eq_nil_iff]
        rintro (h | h)
        · omega
        · exact hbytes h
      · split
        · next hd =>
          refine ⟨?_, rfl, hpieces.2⟩
          rw [List.take_of_length_le (List.drop_eq_nil_iff.1 hd)]
          rfl
        · next hd =>
          refine ⟨?_, rfl, hd, hpieces.2⟩
          show bytes.take room ++ (bytes.drop room ++ stream later) = bytes ++ stream later
          rw [← List.append_assoc, List.take_append_drop]

/-- A receive at the end of a stream finds the end. -/
theorem next_of_stream_eq_nil (greedy : Bool) (room : Nat) {arrivals : List Arrival}
    (hpieces : NonEmptyPieces arrivals) (h : stream arrivals = []) :
    (Peer.next greedy room arrivals).1 = (ending arrivals).answer := by
  match arrivals with
  | [] => rfl
  | ended :: later => rfl
  | failure :: later => rfl
  | data bytes :: later => exact absurd (List.append_eq_nil_iff.1 h).1 hpieces.1

end Arrival

namespace Peer

/-- The bytes that the peer still sends. -/
def stream (p : Peer) : Bytes :=
  Arrival.stream p.arrivals

/-- How its stream ends. -/
def ending (p : Peer) : StreamEnd :=
  Arrival.ending p.arrivals

/-- The peer is there, and goes on sending non-empty pieces up to the end of its stream. -/
structure Steady (p : Peer) : Prop where
  isConnected : p.isConnected = true
  hangUpAfter : p.hangUpAfter = none
  nonEmpty : Arrival.NonEmptyPieces p.arrivals

theorem receive_of_stream_eq_nil {p : Peer} (hp : p.Steady) (room : Nat) (h : p.stream = []) :
    (p.receive room).1 = p.ending.answer :=
  Arrival.next_of_stream_eq_nil p.greedy room hp.nonEmpty h

/-- As long as there is something left, a receive with room takes some of it and leaves the rest. -/
theorem receive_of_stream_ne_nil {p : Peer} {room : Nat} (hp : p.Steady) (hroom : 0 < room)
    (h : p.stream ≠ []) :
    ∃ got q, p.receive room = (some got, q) ∧ got ≠ [] ∧ q.Steady ∧
      got ++ q.stream = p.stream ∧ q.ending = p.ending := by
  obtain ⟨got, later, hnext, hgot, hleaves⟩ :=
    Arrival.next_of_stream_ne_nil p.greedy hroom hp.nonEmpty h
  have hnonempty : p.arrivals.isEmpty = false := by
    cases harrivals : p.arrivals with
    | nil => exact absurd (congrArg Arrival.stream harrivals) h
    | cons _ _ => rfl
  have hgiven : (p.receive room).1 = some got := congrArg Prod.fst hnext
  have hlater : (p.receive room).2.arrivals = later := congrArg Prod.snd hnext
  refine ⟨got, (p.receive room).2, Prod.ext hgiven rfl, hgot, ?_, ?_, ?_⟩
  · refine ⟨?_, hp.hangUpAfter, ?_⟩
    · simp [receive, hp.isConnected, hp.hangUpAfter, hnonempty]
    · rw [hlater]
      exact hleaves.nonEmpty
  · rw [stream, hlater]
    exact hleaves.stream
  · rw [ending, hlater]
    exact hleaves.ending

/-- A peer that sends these pieces and closes. -/
def sending (pieces : List Bytes) : Peer where
  arrivals := pieces.map .data

/-- A peer that sends pieces which are not empty goes on up to the end of its stream. -/
theorem steady_sending {pieces : List Bytes} (h : ∀ piece ∈ pieces, piece ≠ []) :
    (sending pieces).Steady where
  isConnected := rfl
  hangUpAfter := rfl
  nonEmpty := by
    show Arrival.NonEmptyPieces (pieces.map .data)
    induction pieces with
    | nil => trivial
    | cons piece pieces ih =>
      rcases List.forall_mem_cons.1 h with ⟨hpiece, hpieces⟩
      exact ⟨hpiece, ih hpieces⟩

end Peer

end DeviceHttp
