import DeviceHttp.Proofs.Transfer.Sequence

/-!
# Loops, one round at a time

The loops that read a response are written as one round and the loop behind it, so that a proof about
a loop can go through the links of a round like through those of a chain. `onState` looks at the
state that a chain leaves through a function, and passes over its links (`andThen_onState`); two
chains that do the same on two views of a state are compared that way.
-/

namespace DeviceHttp

/-- A result whose state is looked at through a function. -/
def onState {σ τ α : Type} (view : σ → τ) :
    EStateM.Result TransferError σ α → EStateM.Result TransferError τ α
  | .ok a s => .ok a (view s)
  | .error e s => .error e (view s)

/-- A function goes along with a chain if it goes along with its links. -/
theorem andThen_onState {σ τ α β : Type} {view : σ → τ}
    {first : EStateM.Result TransferError σ α}
    {next : α → σ → EStateM.Result TransferError σ β}
    {next' : α → τ → EStateM.Result TransferError τ β}
    (h : ∀ a s, first = .ok a s → next' a (view s) = onState view (next a s)) :
    andThen (onState view first) next' = onState view (andThen first next) := by
  cases first with
  | ok a s => exact h a s rfl
  | error e s => rfl

namespace Exchange

/-- One receive and the loop behind it, as long as bytes are missing and the peer is there. No
answer and an empty one end it with different errors. -/
theorem fillTo_round (want : Nat) (x : Exchange) :
    x.fillTo want =
      if x.window.pending.length < min want x.window.capacity then
        if x.peer.isConnected then
          match x.receive (min want x.window.capacity - x.window.pending.length) with
          | (none, y) => .error .connection y
          | (some [], y) => .error .closed y
          | (some (_ :: _), y) => y.fillTo want
        else .error .closed x
      else .ok () x := by
  rw [fillTo]
  split
  · split
    · split
      · next h => rw [h]
      · next h => rw [h]
      · next h => rw [h]
    · rfl
  · rfl

/-- One look for a line and the loop behind it. A window that is full without one ends the search,
since no receive could bring the line end. -/
theorem readLine_round (x : Exchange) :
    x.readLine =
      match x.window.lineLength? with
      | some n => .ok n x
      | none =>
        if x.window.isFull then .error .protocol x else andThen x.fill fun _ => readLine := by
  rw [readLine]
  cases x.window.lineLength? with
  | some n => rfl
  | none =>
    dsimp only
    split
    · rfl
    · split
      · next hy => rw [hy]; rfl
      · next hy => rw [hy]; rfl

/-- What becomes of a block of headers with the line that is pending whole. -/
def takeHeader (follow : Bool) (block : HeaderBlock) (n : Nat) (x : Exchange) : Outcome Next :=
  if n = 0 then .ok (.body block.framing) ((x.consume 2).deliverAll block.announcement)
  else
    match block.addLine (x.front n) with
    | .error e => .error e x
    | .ok block =>
      match follow, block.location with
      | true, some location =>
        .ok (.redirect location) { x.consume (n + 2) with location := some location }
      | _, _ =>
        readHeaders follow block
          { x.consume (n + 2) with location := block.location.or x.location }

theorem readHeaders_round (follow : Bool) (block : HeaderBlock) (x : Exchange) :
    x.readHeaders follow block = andThen x.readLine (takeHeader follow block) := by
  rw [readHeaders]
  split
  · next hy => rw [hy]; rfl
  · next hy => rw [hy]; rfl

/-- Hand the next slice to the sink, and then the rest of so many bytes. -/
def copySlice (n : Nat) (x : Exchange) : Outcome Unit :=
  copy (n - (x.front n).length)
    ((x.consume (x.front n).length).deliver (.write (x.front n)))

theorem copy_round {n : Nat} (h0 : n ≠ 0) (x : Exchange) :
    x.copy n = andThen x.ensurePending fun _ => copySlice n := by
  rw [copy, dif_neg h0]
  split
  · next hy => rw [hy]; rfl
  · next hy => rw [hy]; rfl

/-- What is behind the data of a chunk. -/
def closeChunk (x : Exchange) : Outcome Unit :=
  if x.front 2 = Window.crlf then readChunks (x.consume 2) else .error .protocol x

/-- What is behind the first line of a chunk of this size. -/
def takeChunk (size : Nat) (x : Exchange) : Outcome Unit :=
  if size = 0 then .ok () (x.deliver (.write []))
  else andThen (x.copy size) fun _ x => andThen (x.fillTo 2) fun _ => closeChunk

/-- The size of a chunk, and then the rest of the loop as what is to be done with this size. -/
theorem readChunks_round (x : Exchange) :
    x.readChunks = andThen x.readChunkSize takeChunk := by
  rw [readChunks]
  split
  · next hy => rw [hy]; rfl
  · next size y hy =>
    rw [hy]
    show _ = takeChunk size y
    unfold takeChunk
    split
    · rfl
    · split
      · next hz => rw [hz]; rfl
      · next hz =>
        rw [hz]
        unfold andThen
        dsimp only
        split
        · next hw => rw [hw]
        · next hw => rw [hw]; rfl

/-- A chunk that was read leaves less to read. -/
theorem available_lt_of_chunk {x y z w : Exchange} {size : Nat} {u v : Unit}
    (hy : x.readChunkSize = .ok size y) (hz : y.copy size = .ok u z)
    (hw : z.fillTo 2 = .ok v w) : (w.consume 2).available < x.available := by
  have hsize := available_lt_of_readChunkSize hy
  have hdata := Outcome.exchange_of_ok hz ▸ available_copy_le size y
  have hwait := Outcome.exchange_of_ok hw ▸ available_fillTo 2 z
  have htaken := available_consume_le 2 w
  omega

end Exchange

end DeviceHttp
