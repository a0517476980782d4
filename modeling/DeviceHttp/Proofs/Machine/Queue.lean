import DeviceHttp.Proofs.Machine.Buffering
import DeviceHttp.Proofs.Transfer.Buffered

/-!
# The working buffer as a queue

`Call` is what can be done with the working buffer, and an `Account` keeps what came in and what was
consumed beside it. No call traps or runs forever, whatever the peer does, and what came in is what
was consumed with what waits behind it, byte for byte, unless bytes that wait are cleared away. One
call keeps this (`Account.Balanced.perform`), so any number of them does
(`Account.Balanced.performAll`).

A line that is read from such a buffer is the first one of the stream that is left, and reading it
consumes nothing (`Account.buffer_is_queue`).
-/

namespace DeviceHttp

/-- Only the bytes that fit are added. -/
theorem Window.extend_congr {w : Window} {a b : Bytes}
    (h : a.take w.compact.room = b.take w.compact.room) : w.extend a = w.extend b := by
  simp only [extend, h]

namespace Machine

open Window (crlf)

/-- Whether the act succeeds or fails, it comes to an end. -/
theorem Follows.leaves {α : Type} {act : Act α} {r : Rig} {o : Exchange.Outcome α}
    (h : Follows act r o) : ∃ s, Does act r o.result s ∧ s.Mirrors o.exchange := by
  cases h with
  | ok does mirrors => exact ⟨_, does, mirrors⟩
  | error does mirrors => exact ⟨_, does, mirrors⟩

namespace Cells

/-- Put bytes behind those that wait, as many as fit. The result is how many these are. -/
def extend (data : Bytes) (c : Cells) : Checked (Nat × Cells) := do
  let c ← c.compact
  let free ← sub c.bytes.length c.filled
  let n := min data.length free
  let part ← slice data 0 n
  let bytes ← put c.bytes c.filled part
  let filled ← add c.filled n
  pure (n, { c with bytes, filled })

/-- Bytes are put behind those that wait, as many as there is room for once these are moved to the
front. How many that are is told. -/
theorem Holds.extend_eq {c : Cells} {w : Window} (h : c.Holds w) (data : Bytes) :
    ∃ n d, c.extend data = pure (n, d) ∧ d.Holds (w.extend data) ∧
      (w.extend data).pending = w.pending ++ data.take n := by
  obtain ⟨c', hcompact, hholds, hfilled⟩ := h.compact_eq
  have hfree : c'.bytes.length - c'.filled = w.compact.room := by
    rw [hholds.size, hfilled, Window.room_compact]
    rfl
  obtain ⟨n, hn⟩ : ∃ n, n = min data.length w.compact.room := ⟨_, rfl⟩
  have hlength : (data.take n).length = n :=
    List.length_take_of_le (hn ▸ Nat.min_le_left _ _)
  have htake : data.take n = data.take w.compact.room := by
    rw [hn, Nat.min_comm, ← List.take_eq_take_min]
  have hsame : w.extend (data.take n) = w.extend data := by
    apply Window.extend_congr
    rw [htake, List.take_take, Nat.min_self]
  have hfits : (data.take n).length ≤ w.compact.room :=
    Nat.le_trans (Nat.le_of_eq hlength) (hn ▸ Nat.min_le_right _ _)
  obtain ⟨bytes, hput, hd⟩ := hholds.extend hfits
  have hword : c'.filled + n < UInt64.size := by
    have hle := hd.filled_le
    rw [hd.size, hlength] at hle
    exact Nat.lt_of_le_of_lt hle hd.word
  -- bytes that do not fit are left out before they get to the cells
  rw [hlength, hsame] at hd
  refine ⟨n, _, ?_, hd, ?_⟩
  · rw [Cells.extend, hcompact, pure_bind, sub_eq hholds.filled_le, pure_bind, hfree, ← hn]
    dsimp only
    rw [slice_zero (hn ▸ Nat.min_le_left _ _), pure_bind, hput, pure_bind, add_eq hword, pure_bind]
  · rw [Window.pending_extend, ← Window.room_compact, htake]

end Cells

/-! ## Calls and their account -/

/-- What can be done with the buffer. Each wait has a time of its own. -/
inductive Call
  | fillTo (want timeout : Nat)
  | fill (timeout : Nat)
  | readLine (timeout : Nat)
  | consume (n : Nat)
  | compact
  | extend (data : Bytes)
  | clear
  deriving DecidableEq, Repr

/-- A buffer with its peer, and what passed through it. -/
structure Account where
  rig : Rig
  /-- The bytes that were received or put there. -/
  arrived : Bytes := []
  /-- The bytes that were consumed. -/
  taken : Bytes := []
  /-- No bytes were cleared away while they waited. -/
  intact : Bool := true

namespace Account

/-- An empty buffer of this size. -/
def fresh (size : Nat) (peer : Peer) : Account where
  rig :=
    { peer, cells := ⟨List.replicate size 0, 0, 0⟩, timeout := 0, status := 0, location := none,
      trace := [] }

def withCells (cells : Cells) (q : Account) : Account :=
  { q with rig := { q.rig with cells } }

/-- The rig with this time for each wait. -/
def rigFor (timeout : Nat) (q : Account) : Rig :=
  { q.rig with timeout }

/-- Do what may receive, whether it succeeds or not. -/
def receiving {α : Type} (timeout : Nat) (act : Act α) (q : Account) : Checked Account := do
  let done ← act.run.run (q.rigFor timeout)
  let received := heard (done.2.trace.drop q.rig.trace.length)
  pure { q with rig := done.2, arrived := q.arrived ++ received }

def perform (q : Account) : Call → Checked Account
  | .fillTo want timeout => q.receiving timeout (fillTo want)
  | .fill timeout => q.receiving timeout fill
  | .readLine timeout => q.receiving timeout readLine
  | .consume n => do
    let pending ← q.rig.cells.pending
    let cells ← q.rig.cells.consume n
    pure { q.withCells cells with taken := q.taken ++ pending.take n }
  | .compact => do
    let cells ← q.rig.cells.compact
    pure (q.withCells cells)
  | .extend data => do
    let (n, cells) ← q.rig.cells.extend data
    pure { q.withCells cells with arrived := q.arrived ++ data.take n }
  | .clear => do
    let pending ← q.rig.cells.pending
    pure { q.withCells q.rig.cells.clear with intact := q.intact && pending.isEmpty }

def performAll (calls : List Call) (q : Account) : Checked Account :=
  calls.foldlM perform q

/-- No more is consumed than waits. -/
def Permits (q : Account) : Call → Prop
  | .consume n => ∀ pending, q.rig.cells.pending = pure pending → n ≤ pending.length
  | _ => True

/-- No call consumes more than waits when it is made. -/
def Admits : List Call → Account → Prop
  | [], _ => True
  | call :: calls, q => q.Permits call ∧ ∀ next, q.perform call = pure next → next.Admits calls

/-! ## The balance -/

/-- The account of an exchange with a buffer of this size. -/
structure Balanced (size : Nat) (q : Account) (x : Exchange) : Prop where
  mirrors : q.rig.Mirrors x
  capacity : x.window.capacity = size
  asked : ∀ e ∈ x.trace, e.InBounds
  balance : q.intact = true → q.arrived = q.taken ++ x.window.pending

namespace Balanced

variable {size : Nat} {q : Account} {x : Exchange}

theorem pending_eq (h : Balanced size q x) : q.rig.cells.pending = pure x.window.pending :=
  h.mirrors.cells.pending_eq

theorem mirrors_for (h : Balanced size q x) (timeout : Nat) :
    (q.rigFor timeout).Mirrors { x with timeout } :=
  ⟨h.mirrors.peer, h.mirrors.cells, rfl, h.mirrors.status, h.mirrors.location, h.mirrors.trace⟩

/-- What is received is added to what came in, and to what waits, so the account stays even. -/
theorem receiving {α : Type} {act : Act α} {timeout : Nat} {o : Exchange.Outcome α}
    (h : Balanced size q x) (hact : Mimics act { x with timeout } o)
    (hpours : Exchange.Pours { x with timeout } o.exchange) :
    ∃ next y, q.receiving timeout act = pure next ∧ Balanced size next y := by
  obtain ⟨s, hdoes, hs⟩ := (hact _ (h.mirrors_for timeout)).leaves
  obtain ⟨new, htrace, hpending, hnew⟩ := hpours.events
  have hadded : s.trace.drop q.rig.trace.length = new := by
    rw [hs.trace, htrace, h.mirrors.trace]
    exact List.drop_left
  refine ⟨{ q with rig := s, arrived := q.arrived ++ heard new }, o.exchange, ?_, hs,
    hpours.capacity.trans h.capacity, ?_, fun hintact => ?_⟩
  · rw [Account.receiving, hdoes, pure_bind, ← hadded]
  · rw [htrace]
    exact List.forall_mem_append.2 ⟨h.asked, hnew⟩
  · show q.arrived ++ heard new = q.taken ++ o.exchange.window.pending
    rw [hpending, h.balance hintact, List.append_assoc]

/-- The exchange goes on with other cells. -/
theorem withCells {cells : Cells} {w : Window} {arrived taken : Bytes} {intact : Bool}
    (h : Balanced size q x) (hcells : cells.Holds w) (hcapacity : w.capacity = x.window.capacity)
    (hbalance : intact = true → arrived = taken ++ w.pending) :
    Balanced size { q.withCells cells with arrived, taken, intact } { x with window := w } :=
  ⟨⟨h.mirrors.peer, hcells, h.mirrors.timeout, h.mirrors.status, h.mirrors.location,
    h.mirrors.trace⟩, hcapacity.trans h.capacity, h.asked, hbalance⟩

/-- Every call comes to an end, and keeps the balance. The cases are the calls; those that wait for
bytes go by what waiting does to a window. -/
theorem perform (h : Balanced size q x) (hword : size + 1 < UInt64.size) {call : Call}
    (hcall : q.Permits call) : ∃ next y, q.perform call = pure next ∧ Balanced size next y := by
  have hcells := h.mirrors.cells
  cases call with
  | fillTo want timeout =>
    exact h.receiving (mimics_fillTo want _) (Exchange.pours_fillTo want _)
  | fill timeout =>
    -- a full buffer too counts one byte more, before the sum is cut to the size
    have hcount : x.window.pending.length + 1 < UInt64.size :=
      Nat.lt_of_le_of_lt (Nat.succ_le_succ (h.capacity ▸ x.window.length_pending_le)) hword
    exact h.receiving (mimics_fill_of_word hcount)
      (Exchange.pours_fillTo (x.window.pending.length + 1) _)
  | readLine timeout => exact h.receiving (mimics_readLine _) (Exchange.pours_readLine _)
  | consume n =>
    obtain ⟨d, hd, hholds⟩ := hcells.consume_eq (hcall _ h.pending_eq)
    have hnext : q.perform (.consume n)
        = pure { q.withCells d with taken := q.taken ++ x.window.pending.take n } := by
      rw [Account.perform, h.pending_eq, pure_bind, hd, pure_bind]
    refine ⟨_, _, hnext, h.withCells hholds (Window.capacity_consume n _) fun hintact => ?_⟩
    rw [Window.pending_consume, List.append_assoc, List.take_append_drop]
    exact h.balance hintact
  | compact =>
    obtain ⟨d, hd, hholds, -⟩ := hcells.compact_eq
    have hnext : q.perform .compact = pure (q.withCells d) := by
      rw [Account.perform, hd, pure_bind]
    exact ⟨_, _, hnext, h.withCells hholds rfl h.balance⟩
  | extend data =>
    obtain ⟨n, d, hd, hholds, hpending⟩ := hcells.extend_eq data
    have hnext : q.perform (.extend data)
        = pure { q.withCells d with arrived := q.arrived ++ data.take n } := by
      rw [Account.perform, hd, pure_bind]
    refine ⟨_, _, hnext, h.withCells hholds (Window.capacity_extend data _) fun hintact => ?_⟩
    show q.arrived ++ data.take n = q.taken ++ (x.window.extend data).pending
    rw [hpending, h.balance hintact, List.append_assoc]
  | clear =>
    have hnext : q.perform .clear
        = pure { q.withCells q.rig.cells.clear with
            intact := q.intact && x.window.pending.isEmpty } := by
      rw [Account.perform, h.pending_eq, pure_bind]
    refine ⟨_, _, hnext, h.withCells hcells.clear (Window.capacity_clear _) fun hintact => ?_⟩
    obtain ⟨hbefore, hnil⟩ := Bool.and_eq_true_iff.1 hintact
    show q.arrived = q.taken ++ []
    rw [h.balance hbefore, List.isEmpty_iff.1 hnil]

/-- However often the buffer is called, the balance is kept. -/
theorem performAll (h : Balanced size q x) (hword : size + 1 < UInt64.size) {calls : List Call}
    (hcalls : q.Admits calls) :
    ∃ next y, q.performAll calls = pure next ∧ Balanced size next y := by
  induction calls generalizing q x with
  | nil => exact ⟨q, x, rfl, h⟩
  | cons call calls ih =>
    obtain ⟨hcall, hlater⟩ := hcalls
    obtain ⟨next, y, hnext, hy⟩ := h.perform hword hcall
    obtain ⟨last, z, hlast, hz⟩ := ih hy (hlater next hnext)
    refine ⟨last, z, ?_, hz⟩
    rw [Account.performAll, List.foldlM_cons, hnext, pure_bind]
    exact hlast

end Balanced

/-- An empty buffer in front of a peer has an even account: nothing came in and nothing went out. -/
theorem balanced_fresh {size : Nat} (hpos : 0 < size) (hword : size < UInt64.size) (peer : Peer) :
    ∃ x, Balanced size (fresh size peer) x := by
  let x : Exchange :=
    { peer, window := { capacity := size, capacity_pos := hpos }, timeout := 0, source := none,
      status := 0, location := none }
  have hcells : Cells.Holds ⟨List.replicate size 0, 0, 0⟩ x.window :=
    ⟨List.length_replicate, hword, rfl, rfl, rfl⟩
  exact ⟨x, ⟨rfl, hcells, rfl, rfl, rfl, rfl⟩, rfl, List.forall_mem_nil _, fun _ => rfl⟩

/-! ## The queue -/

/-- The buffer is a queue of bounded size in which these bytes wait. -/
structure IsQueue (size : Nat) (q : Account) (pending : Bytes) : Prop where
  waits : q.rig.cells.pending = pure pending
  consumed_le : q.rig.cells.consumed ≤ q.rig.cells.filled
  filled_le : q.rig.cells.filled ≤ size
  /-- Nothing came out of order, was lost or came twice. -/
  balance : q.intact = true → q.arrived = q.taken ++ pending
  /-- Every receive had room for the bytes that it waited for. -/
  asked : ∀ e ∈ q.rig.trace, e.InBounds

/-- Reading a line comes to this, for whatever stream the peer gives. -/
structure ReadsLine (size : Nat) (r : Rig) (pending : Bytes) (result : Except TransferError Nat)
    (s : Rig) : Prop where
  does : Does readLine r result s
  /-- What waits is followed by what was received: nothing is consumed. -/
  kept : ∃ new, s.trace = r.trace ++ new ∧ s.cells.pending = pure (pending ++ heard new)
  line : ∀ {stream ending}, r.peer.Gives (size - pending.length) stream ending → ∀ n,
    result = .ok n ↔ n + 2 ≤ size ∧
      ∃ line rest, pending ++ stream = line ++ crlf ++ rest ∧ ¬ crlf <:+: line ∧ line.length = n
  long : ∀ {stream ending}, r.peer.Gives (size - pending.length) stream ending →
    (result = .error .protocol ↔
      size ≤ (pending ++ stream).length ∧ ¬ crlf <:+: (pending ++ stream).take size)
  ends : ∀ {stream ending}, r.peer.Gives (size - pending.length) stream ending →
    (result = .error ending.error ↔
      (pending ++ stream).length < size ∧ ¬ crlf <:+: pending ++ stream)

namespace Balanced

variable {size : Nat} {q : Account} {x : Exchange}

/-- With an even account the buffer is a queue that holds no more than its size. -/
theorem isQueue (h : Balanced size q x) : q.IsQueue size x.window.pending where
  waits := h.pending_eq
  consumed_le := h.mirrors.cells.consumed_le
  filled_le := by
    rw [← h.capacity, ← h.mirrors.cells.size]
    exact h.mirrors.cells.filled_le
  balance := h.balance
  asked := by
    rw [h.mirrors.trace]
    exact h.asked

/-- Reading a line of such a buffer comes to an end and says what the first line of the stream is
that is left. -/
theorem reads_line (h : Balanced size q x) (timeout : Nat) :
    ∃ result s, ReadsLine size (q.rigFor timeout) x.window.pending result s := by
  let y : Exchange := { x with timeout }
  obtain ⟨s, hdoes, hs⟩ := (mimics_readLine y _ (h.mirrors_for timeout)).leaves
  obtain ⟨new, htrace, hpending, -⟩ := (Exchange.pours_readLine y).events
  have hfirst {stream : Bytes} {ending : StreamEnd}
      (hgives : (q.rigFor timeout).peer.Gives (size - x.window.pending.length) stream ending) :
      Exchange.FirstLine size (x.window.pending ++ stream) ending
        (Exchange.Outcome.result y.readLine) := by
    rw [(h.mirrors_for timeout).peer, ← h.capacity] at hgives
    exact h.capacity ▸ Exchange.readLine_first (x := y) hgives
  refine ⟨_, s, hdoes, ⟨new, ?_, ?_⟩, fun hgives n => (hfirst hgives).ok_iff,
    fun hgives => (hfirst hgives).protocol_iff, fun hgives => (hfirst hgives).ending_iff⟩
  · rw [hs.trace, htrace, (h.mirrors_for timeout).trace]
  · rw [hs.cells.pending_eq, hpending]

end Balanced

/-- Whatever is done with the buffer, and whoever sends, it is a queue of the stream. A line that is
read from it is the first one of what is left of the stream; a peer that is steady gives the stream
that it has in store, and every peer gives one. No array is so large that a word could not count one
cell more. -/
theorem buffer_is_queue {size : Nat} (hpos : 0 < size) (hword : size + 1 < UInt64.size)
    (peer : Peer) (calls : List Call) (hcalls : (fresh size peer).Admits calls) :
    ∃ q pending, (fresh size peer).performAll calls = pure q ∧ q.IsQueue size pending ∧
      (∀ timeout, ∃ result s, ReadsLine size (q.rigFor timeout) pending result s) ∧
      (∃ stream ending, q.rig.peer.Gives (size - pending.length) stream ending) ∧
      (q.rig.peer.Steady →
        q.rig.peer.Gives (size - pending.length) q.rig.peer.stream q.rig.peer.ending) := by
  obtain ⟨x, hx⟩ := balanced_fresh hpos (Nat.lt_of_succ_lt hword) peer
  obtain ⟨q, y, hq, hy⟩ := hx.performAll hword hcalls
  exact ⟨q, y.window.pending, hq, hy.isQueue, hy.reads_line, Peer.exists_gives _ _,
    fun hsteady => Peer.gives_stream hsteady _⟩

/-- Two letters and the end of a line go into four cells. When a letter is consumed and the others
are moved, a line of one letter can be read, and a byte that the peer sends is received. -/
theorem buffer_is_queue_of_four_cells :
    (fresh 4 { arrivals := [.data [99]] }).Admits
        [.extend [97, 98, 13, 10], .consume 1, .compact, .readLine 5, .fill 5] ∧
      ∃ q pending, (fresh 4 { arrivals := [.data [99]] }).performAll
          [.extend [97, 98, 13, 10], .consume 1, .compact, .readLine 5, .fill 5] = pure q ∧
        q.IsQueue 4 pending := by
  have hadmits : (fresh 4 { arrivals := [.data [99]] }).Admits
      [.extend [97, 98, 13, 10], .consume 1, .compact, .readLine 5, .fill 5] := by
    refine ⟨trivial, fun q hq => ⟨fun pending hpending => ?_, fun _ _ => ⟨trivial, fun _ _ =>
      ⟨trivial, fun _ _ => ⟨trivial, fun _ _ => trivial⟩⟩⟩⟩⟩
    cases hq
    cases hpending
    decide
  obtain ⟨q, pending, hq, hqueue, -⟩ := buffer_is_queue (by decide) (by decide) _ _ hadmits
  exact ⟨hadmits, q, pending, hq, hqueue⟩

end Account

end Machine

end DeviceHttp
