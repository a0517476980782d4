import DeviceHttp.Proofs.Transfer.Attempts
import DeviceHttp.Proofs.Transfer.Heads
import DeviceHttp.Proofs.Transfer.Replay
import DeviceHttp.Proofs.Transfer.Rounds

/-!
# What waiting does to the buffer

To wait for bytes, and to read a line, is to receive and nothing else: what comes stands behind what
was pending, and every receive has room for the bytes that it waits for (`Exchange.Pours`).

What a peer goes on to send may hang on how it is asked. A reader asks with all the room that is
left, and `Peer.Gives` is the stream that it gets so, up to the byte that takes the last of the room.
Every peer gives one, and a steady peer gives the one that it has in store. The line that is read is
the first one of this stream, behind what is pending (`Exchange.readLine_first`).
-/

namespace DeviceHttp

open Window (crlf HoldsLine)

/-- A receive waits for one byte at least, and for no more than there is room for. -/
def Event.InBounds : Event → Prop
  | receive room minimum _ _ => 1 ≤ minimum ∧ minimum ≤ room
  | _ => True

namespace Exchange

/-- Nothing was done but receiving, and what came stands behind what was pending. -/
structure Pours (x y : Exchange) : Prop where
  capacity : y.window.capacity = x.window.capacity
  events : ∃ new, y.trace = x.trace ++ new ∧
    y.window.pending = x.window.pending ++ heard new ∧ ∀ e ∈ new, e.InBounds

namespace Pours

theorem refl (x : Exchange) : Pours x x :=
  ⟨rfl, [], (List.append_nil _).symm, (List.append_nil _).symm, List.forall_mem_nil _⟩

theorem trans {x y z : Exchange} (h : Pours x y) (k : Pours y z) : Pours x z := by
  obtain ⟨new, htrace, hpending, hnew⟩ := h.events
  obtain ⟨more, ktrace, kpending, hmore⟩ := k.events
  refine ⟨k.capacity.trans h.capacity, new ++ more, ?_, ?_, List.forall_mem_append.2 ⟨hnew, hmore⟩⟩
  · rw [ktrace, htrace, List.append_assoc]
  · rw [kpending, hpending, heard_append, List.append_assoc]

end Pours

/-- A receive that asks for some bytes, and no more than there is room for, keeps to its bounds, and
puts what it brings behind what waits. -/
theorem pours_receive (minimum : Nat) {x : Exchange} (hpos : 1 ≤ minimum)
    (hroom : minimum ≤ x.window.capacity - x.window.pending.length) :
    Pours x (x.receive minimum).2 := by
  refine ⟨rfl, _, rfl, ?_, List.forall_mem_singleton.2 ⟨hpos, ?_⟩⟩
  · rw [pending_receive, heard_receive]
    rfl
  · rwa [Window.room_compact]

/-- Waiting for bytes pours what comes into the window, however often it takes a receive. -/
theorem pours_fillTo (want : Nat) (x : Exchange) : Pours x (x.fillTo want).exchange := by
  have hreceive {x y : Exchange} {got : Option Bytes} {goal : Nat}
      (hy : x.receive (goal - x.window.pending.length) = (got, y))
      (hlt : x.window.pending.length < goal) (hgoal : goal ≤ x.window.capacity) : Pours x y := by
    have hpours := pours_receive (goal - x.window.pending.length) (x := x) (by omega) (by omega)
    rw [hy] at hpours
    exact hpours
  fun_induction fillTo want x with
  | case1 x goal hlt hc y hy => exact hreceive hy hlt (Nat.min_le_right _ _)
  | case2 x goal hlt hc y hy => exact hreceive hy hlt (Nat.min_le_right _ _)
  | case3 x goal hlt hc b bs y hy ih => exact (hreceive hy hlt (Nat.min_le_right _ _)).trans ih
  | case4 x goal hlt hc => exact .refl x
  | case5 x goal hge => exact .refl x

/-- Looking for a line consumes nothing; what comes is poured into the window. -/
theorem pours_readLine (x : Exchange) : Pours x x.readLine.exchange := by
  fun_induction readLine x with
  | case1 x n hn => exact .refl x
  | case2 x hn hfull => exact .refl x
  | case3 x hn hfull e y hy =>
    exact Outcome.exchange_of_error hy ▸ pours_fillTo (x.window.pending.length + 1) x
  | case4 x hn hfull u y hy ih =>
    have hfill : Pours x y :=
      Outcome.exchange_of_ok hy ▸ pours_fillTo (x.window.pending.length + 1) x
    exact hfill.trans ih

end Exchange

/-! ## The stream that a reader gets -/

/-- A peer that is asked with all the room there is left gives this stream, which ends like this.
Behind the byte that takes the last of the room nothing is said about the stream. -/
inductive Peer.Gives : Nat → Peer → Bytes → StreamEnd → Prop
  | full (p : Peer) (stream : Bytes) (ending : StreamEnd) : Gives 0 p stream ending
  | gone {room : Nat} {p : Peer} (left : 0 < room) (gone : p.isConnected = false) :
    Gives room p [] .closed
  | ended {room : Nat} {p : Peer} {ending : StreamEnd} (left : 0 < room)
    (connected : p.isConnected = true) (answer : (p.receive room).1 = ending.answer) :
    Gives room p [] ending
  | more {room : Nat} {p q : Peer} {got stream : Bytes} {ending : StreamEnd} (left : 0 < room)
    (connected : p.isConnected = true) (answer : p.receive room = (some got, q))
    (nonempty : got ≠ []) (later : Gives (room - got.length) q stream ending) :
    Gives room p (got ++ stream) ending

namespace Peer

/-- Every peer gives a stream, however it cuts and ends it, when it is always offered the same
room. -/
theorem exists_gives (room : Nat) (p : Peer) : ∃ stream ending, p.Gives room stream ending := by
  induction room using Nat.strongRecOn generalizing p with
  | ind room ih =>
    rcases Nat.eq_zero_or_pos room with rfl | hroom
    · exact ⟨[], .closed, .full p [] .closed⟩
    · cases hconnected : p.isConnected with
      | false => exact ⟨[], .closed, .gone hroom hconnected⟩
      | true =>
        obtain ⟨answer, q, hq⟩ : ∃ answer q, p.receive room = (answer, q) := ⟨_, _, rfl⟩
        have hanswer := congrArg Prod.fst hq
        rcases answer with _ | _ | ⟨b, bs⟩
        · exact ⟨[], .failed, .ended hroom hconnected hanswer⟩
        · exact ⟨[], .closed, .ended hroom hconnected hanswer⟩
        · obtain ⟨stream, ending, hlater⟩ :=
            ih (room - (b :: bs).length) (Nat.sub_lt hroom (Nat.succ_pos _)) q
          exact ⟨_, ending, .more hroom hconnected hq (List.cons_ne_nil b bs) hlater⟩

/-- A steady peer gives what it has in store. -/
theorem gives_stream {p : Peer} (hp : p.Steady) (room : Nat) : p.Gives room p.stream p.ending := by
  induction room using Nat.strongRecOn generalizing p with
  | ind room ih =>
    rcases Nat.eq_zero_or_pos room with rfl | hroom
    · exact .full p p.stream p.ending
    · by_cases hstream : p.stream = []
      · rw [hstream]
        exact .ended hroom hp.isConnected (receive_of_stream_eq_nil hp room hstream)
      · obtain ⟨got, q, hq, hgot, hsteady, hrest, hending⟩ :=
          receive_of_stream_ne_nil hp hroom hstream
        have hlength := List.length_pos_iff.2 hgot
        rw [← hrest, ← hending]
        exact .more hroom hp.isConnected hq hgot (ih _ (by omega) hsteady)

end Peer

/-! ## Lines -/

namespace Exchange

/-- To wait for one byte more is to take some of the stream, or to find its end. What is left then
is again given by the peer, so the search for a line can be followed receive by receive. -/
theorem fill_of_gives {x : Exchange} {stream : Bytes} {ending : StreamEnd}
    (hroom : x.window.pending.length < x.window.capacity)
    (h : x.peer.Gives (x.window.capacity - x.window.pending.length) stream ending) :
    (stream = [] ∧ ∃ y, x.fill = .error ending.error y) ∨
      ∃ y got later, x.fill = .ok () y ∧ stream = got ++ later ∧
        y.window.capacity = x.window.capacity ∧
        y.window.pending = x.window.pending ++ got ∧
        y.peer.Gives (y.window.capacity - y.window.pending.length) later ending := by
  have hgoal : min (x.window.pending.length + 1) x.window.capacity = x.window.pending.length + 1 :=
    Nat.min_eq_left hroom
  have hone : x.window.pending.length + 1 - x.window.pending.length = 1 :=
    Nat.add_sub_cancel_left _ _
  obtain ⟨y, hy, hpeer, hpending, hcapacity⟩ : ∃ y, x.receive 1
        = ((x.peer.receive (x.window.capacity - x.window.pending.length)).1, y) ∧
      y.peer = (x.peer.receive (x.window.capacity - x.window.pending.length)).2 ∧
      y.window.pending = x.window.pending
        ++ (x.peer.receive (x.window.capacity - x.window.pending.length)).1.getD [] ∧
      y.window.capacity = x.window.capacity := by
    rw [← Window.room_compact]
    exact ⟨(x.receive 1).2, rfl, rfl, pending_receive 1 x, rfl⟩
  rw [fill, fillTo_round, hgoal, if_pos (Nat.lt_succ_self _), hone, hy]
  generalize hfree : x.window.capacity - x.window.pending.length = room at h hpeer hpending
  cases h with
  | full => omega
  | gone left gone =>
    rw [if_neg (by rw [gone]; decide)]
    exact .inl ⟨rfl, x, rfl⟩
  | ended left connected answer =>
    rw [if_pos connected, answer]
    cases ending with
    | closed => exact .inl ⟨rfl, y, rfl⟩
    | failed => exact .inl ⟨rfl, y, rfl⟩
  | @more _ _ q got later _ left connected answer nonempty rest =>
    rw [answer] at hpeer hpending ⊢
    obtain ⟨b, bs, rfl⟩ := List.exists_cons_of_ne_nil nonempty
    have hlength := congrArg List.length hpending
    rw [List.length_append, Option.getD_some, List.length_cons] at hlength
    have henough : y.fillTo (x.window.pending.length + 1) = .ok () y := by
      rw [fillTo_round, if_neg (by omega)]
    rw [if_pos connected]
    refine .inr ⟨y, b :: bs, later, henough, rfl, hcapacity, hpending, ?_⟩
    have hleft : y.window.capacity - y.window.pending.length = room - (b :: bs).length := by
      rw [List.length_cons]
      omega
    rw [hleft, hpeer]
    exact rest

/-- What comes of reading a line from a stream. -/
inductive FirstLine (capacity : Nat) (stream : Bytes) (ending : StreamEnd) :
    Except TransferError Nat → Prop
  /-- The first line fits. -/
  | line {line rest : Bytes} (fits : HoldsLine capacity line)
    (bytes : stream = line ++ crlf ++ rest) : FirstLine capacity stream ending (.ok line.length)
  /-- No line ends among as many bytes as fit. -/
  | long (long : capacity ≤ stream.length) (none : ¬ crlf <:+: stream.take capacity) :
    FirstLine capacity stream ending (.error .protocol)
  /-- The stream ends before a line does. -/
  | ends (short : stream.length < capacity) (none : ¬ crlf <:+: stream) :
    FirstLine capacity stream ending (.error ending.error)

namespace FirstLine

variable {capacity : Nat} {stream : Bytes} {ending : StreamEnd} {result : Except TransferError Nat}

/-- A first line is found exactly if one ends within the window, and its length is the one that is
given. -/
theorem ok_iff (h : FirstLine capacity stream ending result) {n : Nat} :
    result = .ok n ↔ n + 2 ≤ capacity ∧
      ∃ line rest, stream = line ++ crlf ++ rest ∧ ¬ crlf <:+: line ∧ line.length = n := by
  cases h with
  | @line line rest fits bytes =>
    constructor
    · intro hn
      obtain rfl := Except.ok.inj hn
      exact ⟨fits.length, line, rest, bytes, fits.noEnd, rfl⟩
    · rintro ⟨-, line', rest', hbytes, hno, rfl⟩
      obtain ⟨rfl, -⟩ := Window.line_unique fits.noEnd hno (bytes.symm.trans hbytes)
      rfl
  | long long none =>
    apply iff_of_false nofun
    rintro ⟨hfits, line, rest, rfl, hno, rfl⟩
    exact none (Window.crlf_infix_take ⟨hno, hfits⟩ rest)
  | ends short none =>
    apply iff_of_false nofun
    rintro ⟨-, line, rest, rfl, -, -⟩
    exact none ⟨line, rest, rfl⟩

/-- A line that is too long is told from a stream that ends early: there are as many bytes as the
window holds, and no line ends among them. -/
theorem protocol_iff (h : FirstLine capacity stream ending result) :
    result = .error .protocol ↔ capacity ≤ stream.length ∧ ¬ crlf <:+: stream.take capacity := by
  cases h with
  | @line line rest fits bytes =>
    apply iff_of_false nofun
    rintro ⟨-, hnone⟩
    rw [bytes] at hnone
    exact hnone (Window.crlf_infix_take fits rest)
  | long long none => exact iff_of_true rfl ⟨long, none⟩
  | ends short none =>
    apply iff_of_false
    · cases ending <;> nofun
    · exact fun hlong => Nat.not_le_of_lt short hlong.1

/-- In every other case it is the end of the stream that is reported. -/
theorem ending_iff (h : FirstLine capacity stream ending result) :
    result = .error ending.error ↔ stream.length < capacity ∧ ¬ crlf <:+: stream := by
  cases h with
  | @line line rest fits bytes =>
    apply iff_of_false nofun
    exact fun hends => hends.2 ⟨line, rest, bytes.symm⟩
  | long long none =>
    apply iff_of_false
    · cases ending <;> nofun
    · exact fun hends => Nat.not_le_of_lt hends.1 long
  | ends short none => exact iff_of_true rfl ⟨short, none⟩

end FirstLine

/-- The line that is read is the first one of the stream, behind what is pending. The induction is
over the receives, each of which moves something from the stream to what is pending. -/
theorem readLine_first {x : Exchange} {stream : Bytes} {ending : StreamEnd}
    (h : x.peer.Gives (x.window.capacity - x.window.pending.length) stream ending) :
    FirstLine x.window.capacity (x.window.pending ++ stream) ending
      (Outcome.result x.readLine) := by
  fun_induction readLine x generalizing stream with
  | case1 x n hn =>
    have hlength := Window.lineLength?_le hn
    obtain ⟨⟨line, rest⟩, hcut, rfl⟩ := Option.map_eq_some_iff.1 hn
    obtain ⟨hpending, hno⟩ := Window.around_crlf_iff.1 hcut
    have hbytes : x.window.pending ++ stream = line ++ crlf ++ (rest ++ stream) := by
      rw [hpending, List.append_assoc _ rest]
    exact .line ⟨hno, Nat.le_trans hlength x.window.length_pending_le⟩ hbytes
  | case2 x hn hfull =>
    have hfull : x.window.capacity ≤ x.window.pending.length := of_decide_eq_true hfull
    have hlength : x.window.capacity = x.window.pending.length :=
      Nat.le_antisymm hfull x.window.length_pending_le
    refine .long (Nat.le_trans hfull ?_) ?_
    · rw [List.length_append]
      exact Nat.le_add_right _ _
    · rw [hlength, List.take_left]
      exact Window.lineLength?_eq_none_iff.1 hn
  | case3 x hn hfull e y hy =>
    have hroom := Window.lt_of_not_isFull hfull
    rcases fill_of_gives hroom h with ⟨rfl, z, hz⟩ | ⟨z, got, later, hz, -⟩
    · rw [hy] at hz
      obtain ⟨rfl, -⟩ := EStateM.Result.error.inj hz
      rw [List.append_nil]
      exact .ends hroom (Window.lineLength?_eq_none_iff.1 hn)
    · cases hy.symm.trans hz
  | case4 x hn hfull u y hy ih =>
    have hroom := Window.lt_of_not_isFull hfull
    rcases fill_of_gives hroom h with
      ⟨-, z, hz⟩ | ⟨z, got, later, hz, rfl, hcapacity, hpending, hlater⟩
    · cases hy.symm.trans hz
    · obtain ⟨-, rfl⟩ := EStateM.Result.ok.inj (hy.symm.trans hz)
      have hline := ih hlater
      rwa [hcapacity, hpending, List.append_assoc] at hline

end Exchange

end DeviceHttp
