import DeviceHttp.Proofs.Machine.Buffering
import DeviceHttp.Proofs.Transfer.Pieces

/-!
# Sending a head on a device

The head of a request is spooled in the working buffer, part by part, and the buffer is flushed
whenever it is full. `Spools` says of what spools bytes that they are sent in pieces together with
the bytes in front of them and behind them; so a head comes to the pieces of its text, however the
text is cut (`follows_sendHead`).
-/

namespace DeviceHttp

/-- Bytes that fit in one piece are one. -/
theorem pieces_of_length_le {size : Nat} {bytes : Bytes} (hsize : 0 < size)
    (h : bytes.length ≤ size) (hne : bytes ≠ []) : pieces size bytes = [bytes] := by
  rw [pieces, dif_neg (not_or.2 ⟨Nat.ne_of_gt hsize, hne⟩), List.take_of_length_le h,
    List.drop_of_length_le h, pieces, dif_pos (.inr rfl)]

/-- Bytes that fill a piece are the first one. -/
theorem pieces_append {size : Nat} {bytes : Bytes} (hsize : 0 < size) (h : bytes.length = size)
    (later : Bytes) : pieces size (bytes ++ later) = bytes :: pieces size later := by
  have hne : bytes ++ later ≠ [] := by
    intro hnil
    rw [(List.append_eq_nil_iff.1 hnil).1] at h
    exact Nat.ne_of_gt hsize h.symm
  rw [pieces, dif_neg (not_or.2 ⟨Nat.ne_of_gt hsize, hne⟩), ← h, List.take_left, List.drop_left]

/-- Send bytes in pieces of the size of the working buffer. -/
def Exchange.sendBytes (bytes : Bytes) (x : Exchange) : Exchange.Outcome Unit :=
  x.sendAll (pieces x.window.capacity bytes)

namespace Machine

/-- Send a piece; a peer that takes less of it has closed. -/
def send (piece : Bytes) : Act Unit := do
  let r ← get
  let sent := r.peer.send piece
  set { r with peer := sent.2, trace := r.trace ++ [Event.send piece r.timeout sent.1] }
  match sent.1 with
  | none => throw .connection
  | some n => if n < piece.length then throw .closed else pure ()

/-- Sending comes to what the exchange comes to, and leaves the buffer as it is, so that a head can
go on to be spooled in it. -/
theorem does_send (piece : Bytes) {r : Rig} {x : Exchange} (h : r.Mirrors x) :
    (∃ s y, Does (send piece) r (.ok ()) s ∧ x.send piece = .ok () y ∧ s.Mirrors y ∧
      s.cells = r.cells) ∨
    ∃ e s y, Does (send piece) r (.error e) s ∧ x.send piece = .error e y ∧ s.Mirrors y := by
  obtain ⟨accepted, peer, hsent⟩ : ∃ accepted peer, x.peer.send piece = (accepted, peer) :=
    ⟨_, _, rfl⟩
  let s : Rig := { r with peer, trace := r.trace ++ [.send piece r.timeout accepted] }
  let y := { x with peer }.note (.send piece x.timeout accepted)
  have hs : s.Mirrors y := by
    refine ⟨rfl, h.cells, h.timeout, h.status, h.location, ?_⟩
    show r.trace ++ [Event.send _ r.timeout _] = x.trace ++ [Event.send _ x.timeout _]
    rw [h.timeout, h.trace]
  have hset {result : Except TransferError Unit}
      (h' : Does (match accepted with
        | none => throw .connection
        | some n => if n < piece.length then throw .closed else pure ()) s result s) :
      Does (send piece) r result s := by
    have hpeer : r.peer.send piece = (accepted, peer) := h.peer ▸ hsent
    unfold send
    refine (does_get r).bind ?_
    rw [hpeer]
    exact (does_set r s).bind h'
  unfold Exchange.send
  rw [hsent]
  dsimp only
  cases accepted with
  | none => exact .inr ⟨.connection, s, y, hset (does_throw _ s), rfl, hs⟩
  | some n =>
    dsimp only at hset ⊢
    by_cases hless : n < piece.length
    · rw [if_pos hless] at hset ⊢
      exact .inr ⟨.closed, s, y, hset (does_throw _ s), rfl, hs⟩
    · rw [if_neg hless] at hset ⊢
      exact .inl ⟨s, y, hset (does_pure () s), rfl, hs, rfl⟩

theorem mimics_send (piece : Bytes) (x : Exchange) : Mimics (send piece) x (x.send piece) := by
  intro r h
  rcases does_send piece h with ⟨s, y, hdoes, hy, hs, -⟩ | ⟨e, s, y, hdoes, hy, hs⟩
  · exact hy ▸ .ok hdoes hs
  · exact hy ▸ .error hdoes hs

/-! ## The head of a request -/

/-- Put bytes in the buffer. -/
def store (start : Nat) (data : Bytes) : Act Unit := do
  let r ← get
  let bytes ← put r.cells.bytes start data
  set { r with cells := { r.cells with bytes } }

/-- Send what is spooled. -/
def flush (held : Nat) : Act Unit :=
  if 0 < held then do
    let r ← get
    let piece ← slice r.cells.bytes 0 held
    send piece
  else pure ()

/-- Flush a buffer that is full. The result is how much is spooled then. -/
def makeRoom (held : Nat) : Act Nat := do
  let r ← get
  if held = r.cells.bytes.length then do
    flush held
    pure 0
  else pure held

/-- Spool as many bytes as there is room for behind those that are spooled. -/
def spoolRound : Round (Nat × Bytes) Nat := fun (held, bytes) =>
  if bytes = [] then pure (.done held)
  else do
    let held ← makeRoom held
    let r ← get
    let room ← sub r.cells.bytes.length held
    let n := min bytes.length room
    let stop ← add held n
    let part ← slice bytes 0 n
    store held part
    let rest ← slice bytes n bytes.length
    pure (.again (stop, rest))

/-- Spool bytes behind those that are spooled. The result is how much is spooled then. -/
def spool (held : Nat) (bytes : Bytes) : Act Nat :=
  spoolRound.loop (held, bytes)

/-- Spool the parts of a text one after the other. -/
def spoolAll (held : Nat) : List Bytes → Act Nat
  | [] => pure held
  | part :: parts => do
    let held ← spool held part
    spoolAll held parts

/-- Send a head that is written in parts. -/
def sendHead (parts : List Bytes) : Act Unit := do
  let held ← spoolAll 0 parts
  flush held

/-- The front of the buffer holds spooled bytes, and no bytes wait in it. -/
structure Rig.Spooled (r : Rig) (x : Exchange) (held : Bytes) : Prop where
  mirrors : r.Mirrors x
  idle : x.window.clear = x.window
  within : held.length ≤ x.window.capacity
  held : r.cells.bytes.take held.length = held

/-- A buffer in which nothing waits can be written over. -/
theorem Rig.Mirrors.over {r : Rig} {x : Exchange} (h : r.Mirrors x)
    (hidle : x.window.clear = x.window) {bytes : Bytes}
    (hsize : bytes.length = r.cells.bytes.length) :
    Rig.Mirrors { r with cells := { r.cells with bytes } } x := by
  refine ⟨h.peer, ⟨hsize.trans h.cells.size, h.cells.word, h.cells.consumed, h.cells.filled, ?_⟩,
    h.timeout, h.status, h.location, h.trace⟩
  have hfilled : r.cells.filled = 0 := by
    rw [h.cells.filled, ← hidle]
    rfl
  show (bytes.take r.cells.filled).drop r.cells.consumed = x.window.pending
  rw [hfilled, ← hidle]
  exact List.drop_nil

section Spooling

variable {r : Rig} {x : Exchange} {held part : Bytes}

theorem Rig.Spooled.size (h : r.Spooled x held) : r.cells.bytes.length = x.window.capacity :=
  h.mirrors.cells.size

/-- What is put behind the spooled bytes is spooled. -/
theorem does_store (h : r.Spooled x held)
    (hpart : held.length + part.length ≤ x.window.capacity) :
    ∃ s, Does (store held.length part) r (.ok ()) s ∧ s.Spooled x (held ++ part) := by
  have hput : held.length + part.length ≤ r.cells.bytes.length := h.size ▸ hpart
  let bytes := r.cells.bytes.take held.length ++ part
    ++ r.cells.bytes.drop (held.length + part.length)
  refine ⟨{ r with cells := { r.cells with bytes } }, ?_, ?_⟩
  · exact (does_get r).bind ((does_lift (put_eq hput) r).bind (does_set r _))
  · refine ⟨h.mirrors.over h.idle (length_put hput), h.idle, by rwa [List.length_append], ?_⟩
    have hbytes : bytes = held ++ part ++ r.cells.bytes.drop (held.length + part.length) :=
      congrArg (· ++ part ++ _) h.held
    show bytes.take (held ++ part).length = held ++ part
    rw [hbytes, List.take_left]

theorem follows_flush_of_pos (h : r.Spooled x held) (hpos : 0 < held.length) :
    Follows (flush held.length) r (x.send held) := by
  rw [flush, if_pos hpos]
  refine .get (.lift (slice_zero (h.size ▸ h.within)) ?_)
  rw [h.held]
  exact mimics_send held x r h.mirrors

/-- Flushing a buffer sends what it holds as one piece, and leaves it empty. -/
theorem follows_flush (h : r.Spooled x held) : Follows (flush held.length) r (x.sendBytes held) := by
  by_cases hnil : held = []
  · subst hnil
    rw [Exchange.sendBytes, pieces, dif_pos (.inr rfl)]
    exact .pure h.mirrors ()
  · rw [Exchange.sendBytes, pieces_of_length_le x.window.capacity_pos h.within hnil,
      Exchange.sendAll_singleton]
    exact follows_flush_of_pos h (List.length_pos_iff.2 hnil)

/-- A buffer with no bytes in its front holds spooled bytes, as many as none. -/
theorem Rig.Mirrors.spooled (h : r.Mirrors x) (hidle : x.window.clear = x.window) :
    r.Spooled x [] :=
  ⟨h, hidle, Nat.zero_le _, rfl⟩

/-- Behind a flush of a full buffer there is room, and the bytes to come are sent as before. -/
theorem follows_makeRoom (h : r.Spooled x held) (later : Bytes) {next : Nat → Act Unit}
    (hnext : ∀ s y held, s.Spooled y held → held.length < y.window.capacity →
      Follows (next held.length) s (y.sendBytes (held ++ later))) :
    Follows (makeRoom held.length >>= next) r (x.sendBytes (held ++ later)) := by
  have hcapacity := x.window.capacity_pos
  rw [makeRoom, bind_assoc]
  refine .get ?_
  by_cases hfull : held.length = x.window.capacity
  · have hsend : x.sendBytes (held ++ later)
        = andThen (x.send held) fun _ y => y.sendAll (pieces x.window.capacity later) := by
      rw [Exchange.sendBytes, pieces_append hcapacity hfull, ← List.singleton_append,
        Exchange.sendAll_append, Exchange.sendAll_singleton]
    rw [if_pos (hfull.trans h.size.symm), hsend, bind_assoc]
    refine (follows_flush_of_pos h (hfull ▸ hcapacity)).bind fun u y hy s hs => ?_
    have hwindow : y.window = x.window :=
      (Exchange.Outcome.exchange_of_ok hy ▸ Exchange.sent_send held x).window
    have hempty : s.Spooled y [] := hs.spooled (by rw [hwindow, h.idle])
    rw [pure_bind, ← hwindow]
    exact hnext s y [] hempty y.window.capacity_pos
  · rw [if_neg (h.size ▸ hfull), pure_bind]
    exact hnext r x held h (Nat.lt_of_le_of_ne h.within hfull)

/-- Bytes that are spooled are sent with those in front of them and those behind them. -/
def Spools (act : Nat → Act Nat) (bytes : Bytes) : Prop :=
  ∀ (r : Rig) (x : Exchange) (held later : Bytes) (next : Nat → Act Unit), r.Spooled x held →
    (∀ s y held, s.Spooled y held → Follows (next held.length) s (y.sendBytes (held ++ later))) →
    Follows (act held.length >>= next) r (x.sendBytes (held ++ (bytes ++ later)))

/-- A part is spooled in as many fillings of the buffer as it takes. Each of them completes a piece
of the text with what the buffer held, and the last one leaves the start of the next piece. -/
theorem spools_spool (bytes : Bytes) : Spools (spool · bytes) bytes := by
  induction hn : bytes.length using Nat.strongRecOn generalizing bytes with
  | ind n ih =>
    subst hn
    intro r x held later next h hnext
    dsimp only
    rw [spool, Round.loop_eq, bind_assoc]
    by_cases hnil : bytes = []
    · subst hnil
      simp only [spoolRound, Round.next, if_true, pure_bind]
      exact hnext r x held h
    · simp only [spoolRound, if_neg hnil, bind_assoc, pure_bind]
      refine follows_makeRoom h (bytes ++ later) fun s y held hs hroom => ?_
      let n := min bytes.length (y.window.capacity - held.length)
      have hn : n ≤ bytes.length := Nat.min_le_left _ _
      have hfits : held.length + n ≤ y.window.capacity := by omega
      have hpart : held.length + (bytes.take n).length ≤ y.window.capacity := by
        rwa [List.length_take_of_le hn]
      have hword : held.length + n < UInt64.size :=
        Nat.lt_of_le_of_lt hfits hs.mirrors.cells.word
      have hless : (bytes.drop n).length < bytes.length := by
        have := List.length_pos_iff.2 hnil
        rw [List.length_drop]
        omega
      obtain ⟨t, hstore, ht⟩ := does_store hs hpart
      refine .get (.lift (sub_eq (hs.size ▸ hs.within)) ?_)
      rw [hs.size]
      refine .lift (add_eq hword) (.lift (slice_zero hn) (.step hstore ?_))
      refine .lift (slice_eq hn (Nat.le_refl _)) ?_
      have hlength : held.length + n = (held ++ bytes.take n).length := by
        rw [List.length_append, List.length_take_of_le hn]
      have hbytes : held ++ (bytes ++ later)
          = held ++ bytes.take n ++ (bytes.drop n ++ later) := by
        rw [List.append_assoc, ← List.append_assoc (bytes.take n), List.take_append_drop]
      rw [List.take_length, hlength, hbytes]
      exact ih _ hless (bytes.drop n) rfl t y _ later next ht hnext

/-- Parts that are spooled one after the other are spooled as the text that they make up. -/
theorem spools_spoolAll (parts : List Bytes) : Spools (spoolAll · parts) parts.flatten := by
  induction parts with
  | nil =>
    intro r x held later next h hnext
    exact hnext r x held h
  | cons part parts ih =>
    intro r x held later next h hnext
    dsimp only
    rw [spoolAll, bind_assoc, List.flatten_cons, List.append_assoc]
    exact spools_spool part r x held _ _ h fun s y held hs => ih s y held later next hs hnext

theorem follows_sendHead {parts : List Bytes} (h : r.Mirrors x) (hidle : x.window.clear = x.window) :
    Follows (sendHead parts) r (x.sendBytes parts.flatten) := by
  have hspools := spools_spoolAll parts r x [] [] flush (h.spooled hidle)
  rw [List.append_nil] at hspools
  refine hspools fun s y held hs => ?_
  rw [List.append_nil]
  exact follows_flush hs

end Spooling

end Machine

end DeviceHttp
