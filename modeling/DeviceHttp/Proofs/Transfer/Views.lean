import DeviceHttp.Proofs.Transfer.Growth
import DeviceHttp.Proofs.Transfer.Sending

/-!
# What reading does not see

A response is read through the window, and the peer behind it. A view of an exchange that leaves
those two alone, and goes along with what reading changes, is not seen by any reader
(`Exchange.Unread`): each of them does in the view what it does in the exchange. Together with
`Exchange.Unseen` for what sends, this says what a conversation does not depend on.
-/

namespace DeviceHttp.Exchange

/-- A view of an exchange that changes nothing that reading looks at. -/
structure Unread (view : Exchange → Exchange) : Prop where
  window : ∀ x, (view x).window = x.window
  peer : ∀ x, (view x).peer = x.peer
  receive : ∀ minimum x, (view x).receive minimum
    = ((x.receive minimum).1, view (x.receive minimum).2)
  clear : ∀ x, { view x with window := (view x).window.clear }
    = view { x with window := x.window.clear }
  consume : ∀ n x, (view x).consume n = view (x.consume n)
  deliverAll : ∀ calls x, (view x).deliverAll calls = view (x.deliverAll calls)
  status : ∀ status x, { view x with status } = view { x with status }
  /-- A location comes in front of what the view makes of the one before. -/
  location : ∀ (location : Option String) x,
    { view x with location := location.or (view x).location }
      = view { x with location := location.or x.location }

section Unread

variable {view : Exchange → Exchange}

theorem Unread.front (h : Unread view) (n : Nat) (x : Exchange) :
    (view x).front n = x.front n := by
  unfold Exchange.front
  rw [h.window]

theorem Unread.deliver (h : Unread view) (call : Delivery) (x : Exchange) :
    (view x).deliver call = view (x.deliver call) :=
  h.deliverAll [call] x

/-- A location is put behind a line in the view as in the exchange. -/
theorem Unread.locate (h : Unread view) (location : Option String) (n : Nat) (x : Exchange) :
    { (view x).consume n with location := location.or (view x).location }
      = view { x.consume n with location := location.or x.location } := by
  have hlocation := h.location location (x.consume n)
  rw [← h.consume] at hlocation
  exact hlocation

/-- Waiting for bytes goes along with such a view. The induction is over the receives, and each of
them leaves the same window and the same peer on both sides. -/
theorem Unread.fillTo (h : Unread view) (want : Nat) (x : Exchange) :
    (view x).fillTo want = onState view (x.fillTo want) := by
  fun_induction Exchange.fillTo want x with
  | case1 x goal hlt hc y hy =>
    rw [fillTo_round, h.window, h.peer, if_pos hlt, if_pos hc, h.receive, hy]
    rfl
  | case2 x goal hlt hc y hy =>
    rw [fillTo_round, h.window, h.peer, if_pos hlt, if_pos hc, h.receive, hy]
    rfl
  | case3 x goal hlt hc b bs y hy ih =>
    rw [fillTo_round, h.window, h.peer, if_pos hlt, if_pos hc, h.receive, hy]
    exact ih
  | case4 x goal hlt hc =>
    rw [fillTo_round, h.window, h.peer, if_pos hlt, if_neg hc]
    rfl
  | case5 x goal hge =>
    rw [fillTo_round, h.window, if_neg hge]
    rfl

theorem Unread.fill (h : Unread view) (x : Exchange) : (view x).fill = onState view x.fill := by
  unfold Exchange.fill
  rw [h.window]
  exact h.fillTo _ x

/-- A line is found in the view exactly where it is found in the exchange. -/
theorem Unread.readLine (h : Unread view) (x : Exchange) :
    (view x).readLine = onState view x.readLine := by
  fun_induction Exchange.readLine x with
  | case1 x n hn =>
    rw [readLine_round, h.window, hn]
    rfl
  | case2 x hn hfull =>
    rw [readLine_round, h.window, hn]
    exact if_pos hfull
  | case3 x hn hfull e y hy =>
    rw [readLine_round, h.window, hn, h.fill, hy]
    exact if_neg hfull
  | case4 x hn hfull u y hy ih =>
    rw [readLine_round, h.window, hn, h.fill, hy]
    exact (if_neg hfull).trans ih

/-- The status line is read in the view as in the exchange. -/
theorem Unread.readStatus (h : Unread view) (x : Exchange) :
    (view x).readStatus = onState view x.readStatus := by
  rw [readStatus_eq, readStatus_eq, h.readLine]
  refine andThen_onState fun n y _ => ?_
  unfold takeStatus
  rw [h.front]
  cases StatusLine.parse (y.front n) with
  | error e => rfl
  | ok code =>
    dsimp only
    rw [h.consume, h.status]
    rfl

/-- A header block is read in the view as in the exchange; a location that it finds is put in front
of what the view keeps. -/
theorem Unread.readHeaders (h : Unread view) (follow : Bool) (block : HeaderBlock)
    (x : Exchange) :
    (view x).readHeaders follow block = onState view (x.readHeaders follow block) := by
  fun_induction Exchange.readHeaders follow block x with
  | case1 block x e y hy =>
    rw [readHeaders_round, h.readLine, hy]
    rfl
  | case2 block x y hy =>
    rw [readHeaders_round, h.readLine, hy]
    show takeHeader follow block 0 (view y) = _
    rw [takeHeader, if_pos rfl, h.consume, h.deliverAll]
    rfl
  | case3 block x n y hy hn e he =>
    rw [readHeaders_round, h.readLine, hy]
    show takeHeader follow block n (view y) = _
    rw [takeHeader, if_neg hn, h.front, he]
    rfl
  | case4 block x n y hy hn later hlater location hlocation hfollow =>
    rw [readHeaders_round, h.readLine, hy, hfollow]
    show takeHeader true block n (view y) = _
    rw [takeHeader, if_neg hn, h.front, hlater]
    dsimp only
    rw [hlocation]
    exact congrArg (EStateM.Result.ok _) (h.locate (some location) (n + 2) y)
  | case5 block x n y hy hn later hlater hlocation ih =>
    rw [readHeaders_round, h.readLine, hy]
    show takeHeader follow block n (view y) = _
    rw [takeHeader, if_neg hn, h.front, hlater]
    dsimp only
    split
    · next location hlocation' => exact (hlocation location rfl hlocation').elim
    · rw [h.locate]
      exact ih

theorem Unread.ensurePending (h : Unread view) (x : Exchange) :
    (view x).ensurePending = onState view x.ensurePending := by
  unfold Exchange.ensurePending
  rw [h.window, h.fill]
  split <;> rfl

/-- A body is copied in the view as in the exchange, in the same slices. -/
theorem Unread.copy (h : Unread view) (n : Nat) (x : Exchange) :
    (view x).copy n = onState view (x.copy n) := by
  fun_induction Exchange.copy n x with
  | case1 x =>
    rw [Exchange.copy]
    rfl
  | case2 n x h0 e y hy =>
    rw [copy_round h0, h.ensurePending, hy]
    rfl
  | case3 n x h0 u y hy slice ih =>
    rw [copy_round h0, h.ensurePending, hy]
    show copySlice n (view y) = _
    rw [copySlice, h.front, h.consume, h.deliver]
    exact ih

/-- The size of a chunk is read in the view as in the exchange. -/
theorem Unread.readChunkSize (h : Unread view) (x : Exchange) :
    (view x).readChunkSize = onState view x.readChunkSize := by
  rw [readChunkSize_eq, readChunkSize_eq, h.readLine]
  refine andThen_onState fun n y _ => ?_
  unfold takeChunkSize
  rw [h.front]
  cases Chunk.parseSize (y.front n) with
  | error e => rfl
  | ok size =>
    dsimp only
    rw [h.consume]
    rfl

/-- Behind the data of a chunk the view goes on as the exchange does. -/
theorem Unread.readChunks_of_copy (h : Unread view) {size : Nat} {x y z : Exchange} {u : Unit}
    (hy : x.readChunkSize = .ok size y) (h0 : size ≠ 0) (hz : y.copy size = .ok u z) :
    (view x).readChunks = andThen (onState view (z.fillTo 2)) fun _ => closeChunk := by
  rw [readChunks_round, h.readChunkSize, hy]
  show takeChunk size (view y) = _
  rw [takeChunk, if_neg h0, h.copy, hz, ← h.fillTo]
  rfl

/-- A chunked body is read in the view as in the exchange, round by round. -/
theorem Unread.readChunks (h : Unread view) (x : Exchange) :
    (view x).readChunks = onState view x.readChunks := by
  fun_induction Exchange.readChunks x with
  | case1 x e y hy =>
    rw [readChunks_round, h.readChunkSize, hy]
    rfl
  | case2 x y hy =>
    rw [readChunks_round, h.readChunkSize, hy]
    show takeChunk 0 (view y) = _
    rw [takeChunk, if_pos rfl, h.deliver]
    rfl
  | case3 x size y hy h0 e z hz =>
    rw [readChunks_round, h.readChunkSize, hy]
    show takeChunk size (view y) = _
    rw [takeChunk, if_neg h0, h.copy, hz]
    rfl
  | case4 x size y hy h0 u z hz e w hw =>
    rw [h.readChunks_of_copy hy h0 hz, hw]
    rfl
  | case5 x size y hy h0 u z hz v w hw hend ih =>
    rw [h.readChunks_of_copy hy h0 hz, hw]
    show closeChunk (view w) = _
    rw [closeChunk, h.front, h.consume]
    exact (if_pos hend).trans ih
  | case6 x size y hy h0 u z hz v w hw hend =>
    rw [h.readChunks_of_copy hy h0 hz, hw]
    show closeChunk (view w) = _
    rw [closeChunk, h.front]
    exact if_neg hend

theorem Unread.readBody (h : Unread view) (framing : Framing) (x : Exchange) :
    (view x).readBody framing = onState view (x.readBody framing) := by
  cases framing with
  | length n => exact h.copy n x
  | chunked => exact h.readChunks x

/-- What is changed in such a view makes no difference to a response. -/
theorem Unread.readResponse (h : Unread view) (follow : Bool) (x : Exchange) :
    Client.readResponse follow (view x) = onState view (Client.readResponse follow x) := by
  rw [readResponse_eq, readResponse_eq, h.readStatus]
  refine andThen_onState fun status y _ => ?_
  unfold judge
  split
  · rw [h.readHeaders]
    refine andThen_onState fun next z _ => ?_
    cases next with
    | redirect location => rfl
    | body framing =>
      unfold finish
      dsimp only
      rw [h.readBody]
      exact andThen_onState fun _ _ _ => rfl
  · rfl

/-- What is changed in a view that neither sending nor reading sees makes no difference to a
conversation. -/
theorem Unread.converse (h : Unread view) (hsend : Unseen view) (head : RequestHead)
    (follow : Bool) (x : Exchange) :
    Client.converse head follow (view x) = onState view (Client.converse head follow x) := by
  rw [converse_eq, converse_eq, hsend.sendRequest]
  refine andThen_onState fun _ y _ => ?_
  rw [h.clear]
  exact h.readResponse follow _

end Unread

end DeviceHttp.Exchange
