import DeviceHttp.Proofs.Transfer.Reading
import DeviceHttp.Proofs.Transfer.Sending

/-!
# Every peer is a stream, once it is over

A peer may hang up in the middle of a line, deliver empty pieces or fail, and how many bytes it gives
hangs on the room that it is offered. So it has no stream that could be known beforehand. But what a
reader got is on record: the bytes that were received from one point to another, and the way in which
waiting for more failed. `Exchange.replay` is the feed of a peer that sends just these bytes, and
`replays_readResponse` says that a reader of any exchange did what it does on that feed.

A success is replayed in front of whatever may follow, because the next reader goes on from there. A
failure is replayed in front of an end that accounts for it; which end that is matters only to a
failure that was one of the transport.
-/

namespace DeviceHttp

/-- The bytes that a list of events brings. -/
def heard (events : List Event) : Bytes :=
  events.flatMap Event.received

@[simp] theorem heard_append (xs ys : List Event) : heard (xs ++ ys) = heard xs ++ heard ys := by
  simp [heard]

@[simp] theorem heard_nil : heard [] = [] := rfl

theorem heard_receive (room minimum timeout : Nat) (bytes : Option Bytes) :
    heard [.receive room minimum timeout bytes] = bytes.getD [] := by
  simp [heard, Event.received]

theorem heard_deliver (calls : List Delivery) : heard (calls.map Event.deliver) = [] := by
  induction calls with
  | nil => rfl
  | cons call calls ih => exact ih

theorem received_eq_length_heard (events : List Event) :
    received events = (heard events).length := rfl

namespace Arrival

/-- A stream that comes in one piece. -/
def whole (bytes : Bytes) : StreamEnd → List Arrival
  | .closed => [.data bytes, .ended]
  | .failed => [.data bytes, .failure]

theorem stream_whole (bytes : Bytes) (ending : StreamEnd) :
    stream (whole bytes ending) = bytes := by
  cases ending <;> exact List.append_nil bytes

theorem ending_whole (bytes : Bytes) (ending : StreamEnd) :
    Arrival.ending (whole bytes ending) = ending := by
  cases ending <;> rfl

end Arrival

namespace Feed

/-- What is behind the data of a chunk. -/
def closeChunk (f : Feed) : Outcome Unit :=
  if f.front 2 = Window.crlf then readChunks (f.consume 2) else .error .protocol f

/-- A round of the chunks as a chain of readers, which is the form in which replays compose. -/
theorem readChunks_of_size {f g : Feed} {size : Nat} (h : f.readChunkSize = .ok size g)
    (hsize : size ≠ 0) :
    f.readChunks =
      andThen (g.copy size) fun _ g => andThen (g.fillTo 2) fun _ => closeChunk := by
  rw [readChunks_of_ok h, if_neg hsize]
  cases g.copy size with
  | error e k => rfl
  | ok u k =>
    unfold andThen
    dsimp only
    cases k.fillTo 2 <;> rfl

end Feed

namespace Exchange

/-- The feed of an exchange whose peer sends these bytes and then ends. -/
def replay (bytes : Bytes) (ending : StreamEnd) (x : Exchange) : Feed where
  toRecord := x.record
  bytes := x.window.pending ++ bytes
  ending := ending
  total := received x.trace + bytes.length

/-- An outcome that a reader of feeds accounts for: on the bytes that were received on the way it
comes to the same result, and leaves the same record. -/
inductive Outcome.Replays {α : Type} (x : Exchange) (read : Feed → Feed.Outcome α) :
    Outcome α → Prop
  | ok (a : α) {y : Exchange} (got : Bytes) (brought : heard y.trace = heard x.trace ++ got)
    (same : ∀ after ending, read (x.replay (got ++ after) ending) = .ok a (y.replay after ending)) :
    Replays x read (.ok a y)
  | error (e : TransferError) {y : Exchange} (got : Bytes) (ending : StreamEnd) (f : Feed)
    (brought : heard y.trace = heard x.trace ++ got)
    (same : read (x.replay got ending) = .error e f) (record : y.record = f.toRecord) :
    Replays x read (.error e y)

/-! ## The feed of a replay -/

section Replay

variable {x : Exchange} (bytes : Bytes) (ending : StreamEnd)

/-- A replay is the feed of an exchange, behind another peer. -/
theorem replay_eq (x : Exchange) :
    x.replay bytes ending = (x.hearing (Arrival.whole bytes ending) x.peer.greedy).feed := by
  unfold replay feed hearing Peer.stream Peer.ending
  rw [Arrival.stream_whole, Arrival.ending_whole]
  rfl

theorem length_replay_bytes (x : Exchange) :
    (x.replay bytes ending).bytes.length = x.window.pending.length + bytes.length :=
  List.length_append

theorem lineLength?_replay_of_some {n : Nat} (h : x.window.lineLength? = some n) :
    (x.replay bytes ending).lineLength? = some n := by
  rw [replay_eq]
  exact lineLength?_feed_of_some h

/-- Where the window has no line, neither has the replay, if the window is full or nothing more was
received. -/
theorem lineLength?_replay_of_none (h : x.window.lineLength? = none)
    (hall : x.window.capacity ≤ x.window.pending.length ∨ bytes = []) :
    (x.replay bytes ending).lineLength? = none := by
  rw [replay_eq]
  apply lineLength?_feed_of_none (x := x.hearing (Arrival.whole bytes ending) x.peer.greedy) h
  rcases hall with hfull | rfl
  · exact .inl hfull
  · exact .inr (Arrival.stream_whole [] ending)

theorem front_replay {n : Nat} (h : n ≤ x.window.pending.length) :
    (x.replay bytes ending).front n = x.front n := by
  rw [replay_eq]
  exact front_feed h

theorem replay_consume {n : Nat} (h : n ≤ x.window.pending.length) :
    (x.consume n).replay bytes ending = (x.replay bytes ending).consume n := by
  rw [replay_eq, replay_eq]
  exact feed_consume (x := x.hearing (Arrival.whole bytes ending) x.peer.greedy) h

theorem replay_deliverAll (calls : List Delivery) (x : Exchange) :
    (x.deliverAll calls).replay bytes ending = (x.replay bytes ending).deliverAll calls := by
  rw [replay_eq, replay_eq]
  exact feed_deliverAll calls (x.hearing (Arrival.whole bytes ending) x.peer.greedy)

theorem replay_deliver_write {slice : Bytes} (h : slice ≠ []) (x : Exchange) :
    (x.deliver (.write slice)).replay bytes ending = (x.replay bytes ending).tell slice := by
  rw [replay_eq, replay_eq]
  exact feed_deliver_write h (x.hearing (Arrival.whole bytes ending) x.peer.greedy)

end Replay

/-! ## Chains -/

namespace Outcome.Replays

variable {α β : Type} {x y : Exchange} {o : Outcome α} {read : Feed → Feed.Outcome α}

/-- A success that took nothing from the peer. -/
theorem of_ok {a : α} (heard_eq : heard y.trace = heard x.trace)
    (same : ∀ after ending, read (x.replay after ending) = .ok a (y.replay after ending)) :
    Replays x read (.ok a y) :=
  .ok a [] (by rw [heard_eq, List.append_nil]) same

/-- A failure that took nothing from the peer. -/
theorem of_error {e : TransferError} {f : Feed} (ending : StreamEnd)
    (heard_eq : heard y.trace = heard x.trace) (same : read (x.replay [] ending) = .error e f)
    (record : y.record = f.toRecord) : Replays x read (.error e y) :=
  .error e [] ending f (by rw [heard_eq, List.append_nil]) same record

/-- A reader that first takes some bytes and then does what another one does. -/
theorem step {later : Feed → Feed.Outcome α} (got : Bytes)
    (brought : heard y.trace = heard x.trace ++ got)
    (same : ∀ after ending, read (x.replay (got ++ after) ending) = later (y.replay after ending))
    (h : Replays y later o) : Replays x read o := by
  cases h with
  | ok a more hmore hsame =>
    refine .ok a (got ++ more) (by rw [hmore, brought, List.append_assoc]) ?_
    intro after ending
    rw [List.append_assoc, same, hsame]
  | error e more ending f hmore hsame hrecord =>
    exact .error e (got ++ more) ending f (by rw [hmore, brought, List.append_assoc])
      (by rw [same, hsame]) hrecord

/-- A chain ends with its first failure. -/
theorem andThen_error {read' : α → Feed → Feed.Outcome β} {e : TransferError}
    (h : Replays x read (.error e y)) :
    Replays x (fun f => DeviceHttp.andThen (read f) read') (.error e y) := by
  cases h with
  | error _ got ending f hgot hsame hrecord =>
    exact .error e got ending f hgot (by rw [hsame]; rfl) hrecord

/-- Readers that follow each other are replayed one after the other. The first one is replayed in
front of all that the second one receives, which is why a success is stated for every stream behind
it. -/
theorem andThen {read' : α → Feed → Feed.Outcome β} {k : α → Exchange → Outcome β}
    (h : Replays x read o) (hnext : ∀ a y, o = .ok a y → Replays y (read' a) (k a y)) :
    Replays x (fun f => DeviceHttp.andThen (read f) read') (andThen o k) := by
  cases h with
  | ok a got hgot hsame =>
    refine step got hgot ?_ (hnext a _ rfl)
    intro after ending
    rw [hsame]
    rfl
  | error e got ending f hgot hsame hrecord =>
    exact andThen_error (.error e got ending f hgot hsame hrecord)

/-- What a success took, and what comes of the rest. -/
theorem cases_ok {a : α} (h : Replays x read (.ok a y)) :
    ∃ got, heard y.trace = heard x.trace ++ got ∧
      ∀ after ending, read (x.replay (got ++ after) ending) = .ok a (y.replay after ending) := by
  cases h with
  | ok _ got hgot hsame => exact ⟨got, hgot, hsame⟩

theorem cases_error {e : TransferError} (h : Replays x read (.error e y)) :
    ∃ got ending f, heard y.trace = heard x.trace ++ got ∧
      read (x.replay got ending) = .error e f ∧ y.record = f.toRecord := by
  cases h with
  | error _ got ending f hgot hsame hrecord => exact ⟨got, ending, f, hgot, hsame, hrecord⟩

end Outcome.Replays

/-! ## Waiting -/

theorem heard_receive_trace (minimum : Nat) (x : Exchange) :
    heard (x.receive minimum).2.trace = heard x.trace ++ (x.receive minimum).1.getD [] := by
  show heard (x.trace ++ [.receive _ _ _ _]) = _
  rw [heard_append, heard_receive]
  rfl

/-- A receive moves bytes of the replay into the window. -/
theorem replay_receive (minimum : Nat) (after : Bytes) (ending : StreamEnd) (x : Exchange) :
    x.replay ((x.receive minimum).1.getD [] ++ after) ending
      = (x.receive minimum).2.replay after ending := by
  have htotal : received (x.receive minimum).2.trace
      = received x.trace + ((x.receive minimum).1.getD []).length := by
    rw [received_eq_length_heard, heard_receive_trace, List.length_append,
      received_eq_length_heard]
  unfold replay
  rw [record_receive, pending_receive, htotal, List.append_assoc, List.length_append,
    Nat.add_assoc]

/-- Too few bytes are pending, and the wait for more failed. -/
theorem fillTo_replay_nil {want : Nat} (ending : StreamEnd) {x : Exchange}
    (h : x.window.pending.length < min want x.window.capacity) :
    (x.replay [] ending).fillTo want = .error ending.error (x.replay [] ending) := by
  apply if_neg
  rw [length_replay_bytes]
  exact Nat.not_le_of_lt h

/-- Waiting for bytes is replayed by the bytes that came. A wait that failed brought fewer than were
asked for, and so does the stream that ends behind them. -/
theorem replays_fillTo (want : Nat) (x : Exchange) :
    (x.fillTo want).Replays x (Feed.fillTo want) := by
  have hreceive {x y : Exchange} {minimum : Nat} {got : Option Bytes}
      (hy : x.receive minimum = (got, y)) :
      heard y.trace = heard x.trace ++ got.getD [] ∧ y.record = x.record ∧
        ∀ after ending, x.replay (got.getD [] ++ after) ending = y.replay after ending := by
    have hheard := heard_receive_trace minimum x
    have hrecord := record_receive minimum x
    have hreplay := fun after ending => replay_receive minimum after ending x
    rw [hy] at hheard hrecord hreplay
    exact ⟨hheard, hrecord, hreplay⟩
  fun_induction fillTo want x with
  | case1 x goal hlt hc y hy =>
    obtain ⟨hheard, hrecord, -⟩ := hreceive hy
    exact .error _ _ .failed _ hheard (fillTo_replay_nil .failed hlt) hrecord
  | case2 x goal hlt hc y hy =>
    obtain ⟨hheard, hrecord, -⟩ := hreceive hy
    exact .error _ _ .closed _ hheard (fillTo_replay_nil .closed hlt) hrecord
  | case3 x goal hlt hc b bs y hy ih =>
    obtain ⟨hheard, -, hreplay⟩ := hreceive hy
    exact .step _ hheard (fun after ending => by rw [← hreplay]) ih
  | case4 x goal hlt hc =>
    exact .of_error .closed rfl (fillTo_replay_nil .closed hlt) rfl
  | case5 x goal hge =>
    apply Outcome.Replays.of_ok rfl
    intro after ending
    apply if_pos
    rw [length_replay_bytes]
    exact Nat.le_trans (Nat.le_of_not_lt hge) (Nat.le_add_right _ _)

/-- A wait that succeeds only moves bytes. -/
theorem brought_of_fillTo {want : Nat} {x y : Exchange} {u : Unit} (h : x.fillTo want = .ok u y) :
    ∃ got, heard y.trace = heard x.trace ++ got ∧
      ∀ after ending, x.replay (got ++ after) ending = y.replay after ending := by
  obtain ⟨got, hgot, hsame⟩ := (h ▸ replays_fillTo want x).cases_ok
  exact ⟨got, hgot, fun after ending => (Feed.fillTo_eq_ok (hsame after ending)).symm⟩

/-! ## Lines -/

/-- The search for a line is replayed: the first line of the window is the first line of the stream,
and no receive before the last one had brought its line end. -/
theorem replays_readLine (x : Exchange) : x.readLine.Replays x Feed.readLine := by
  fun_induction readLine x with
  | case1 x n hn =>
    apply Outcome.Replays.of_ok rfl
    intro after ending
    rw [Feed.readLine, lineLength?_replay_of_some after ending hn]
  | case2 x hn hfull =>
    have hfull : x.window.capacity ≤ x.window.pending.length := by
      simpa [Window.isFull] using hfull
    have hcause : (x.replay [] .closed).lineError = .protocol := by
      apply if_pos
      rw [length_replay_bytes]
      exact hfull
    refine .of_error .closed rfl (f := x.replay [] .closed) ?_ rfl
    rw [Feed.readLine, lineLength?_replay_of_none [] .closed hn (.inr rfl), hcause]
  | case3 x hn hfull e y hy =>
    have hfull := Window.lt_of_not_isFull hfull
    have hfill := replays_fillTo (x.window.pending.length + 1) x
    rw [show x.fillTo (x.window.pending.length + 1) = .error e y from hy] at hfill
    obtain ⟨got, ending, f, hgot, hsame, hrecord⟩ := hfill.cases_error
    -- one more byte was not to be had, so none came
    obtain ⟨hshort, rfl, rfl⟩ := Feed.fillTo_eq_error hsame
    rw [length_replay_bytes] at hshort
    obtain rfl : got = [] := List.length_eq_zero_iff.1 (by omega)
    have hcause : (x.replay [] ending).lineError = ending.error := by
      apply if_neg
      rw [length_replay_bytes]
      exact Nat.not_le_of_lt hfull
    refine .error _ [] ending (x.replay [] ending) hgot ?_ hrecord
    rw [Feed.readLine, lineLength?_replay_of_none [] ending hn (.inr rfl), hcause]
    rfl
  | case4 x hn hfull u y hy ih =>
    obtain ⟨got, hgot, hsame⟩ := brought_of_fillTo hy
    exact .step got hgot (fun after ending => by rw [hsame]) ih

/-- A line that was read is there, with its end, and nothing but waiting was done for it. -/
theorem brought_of_readLine {x y : Exchange} {n : Nat} (h : x.readLine = .ok n y) :
    ∃ got, heard y.trace = heard x.trace ++ got ∧ n + 2 ≤ y.window.pending.length ∧
      ∀ after ending, x.replay (got ++ after) ending = y.replay after ending ∧
        (x.replay (got ++ after) ending).readLine = .ok n (y.replay after ending) := by
  obtain ⟨got, hgot, hsame⟩ := (h ▸ replays_readLine x).cases_ok
  refine ⟨got, hgot, le_length_of_readLine h, ?_⟩
  intro after ending
  exact ⟨(Feed.readLine_eq_ok_iff.1 (hsame after ending)).2.symm, hsame after ending⟩

/-! ## Status and headers -/

/-- The status line is replayed, and with it the status that is remembered, whether it is accepted
or not. -/
theorem replays_readStatus (x : Exchange) : x.readStatus.Replays x Feed.readStatus := by
  rw [readStatus_eq]
  apply (replays_readLine x).andThen
  intro n y hy
  have hn := le_length_of_readLine hy
  have hfront (bytes : Bytes) (ending : StreamEnd) :
      (y.replay bytes ending).front n = y.front n := front_replay bytes ending (by omega)
  unfold takeStatus
  cases hcode : StatusLine.parse (y.front n) with
  | error e =>
    refine .of_error .closed rfl (f := y.replay [] .closed) ?_ rfl
    rw [Feed.takeStatus, hfront, hcode]
  | ok code =>
    refine .of_ok (y := { y.consume (n + 2) with status := code }) rfl ?_
    intro after ending
    rw [Feed.takeStatus, hfront, hcode]
    dsimp only
    rw [← replay_consume after ending hn]
    rfl

/-- A header block is replayed line by line, whether it ends in a body, in a location that is
followed or in a failure. -/
theorem replays_readHeaders (follow : Bool) (block : HeaderBlock) (x : Exchange) :
    (x.readHeaders follow block).Replays x (Feed.readHeaders follow block) := by
  fun_induction readHeaders follow block x with
  | case1 block x e y hy =>
    obtain ⟨got, ending, f, hgot, hsame, hrecord⟩ := (hy ▸ replays_readLine x).cases_error
    exact .error e got ending f hgot (Feed.readHeaders_of_error hsame) hrecord
  | case2 block x y hy =>
    obtain ⟨got, hgot, hn, hsame⟩ := brought_of_readLine hy
    refine .ok _ got ?_ ?_
    · show heard (y.trace ++ block.announcement.map Event.deliver) = _
      rw [heard_append, heard_deliver, List.append_nil, hgot]
    · intro after ending
      rw [Feed.readHeaders_blank (hsame after ending).2, ← replay_consume after ending (by omega),
        ← replay_deliverAll]
  | case3 block x n y hy hn0 e hb =>
    obtain ⟨got, hgot, hn, hsame⟩ := brought_of_readLine hy
    have hsame := (hsame [] .closed).2
    rw [List.append_nil] at hsame
    refine .error e got .closed (y.replay [] .closed) hgot ?_ rfl
    rw [← front_replay [] .closed (by omega)] at hb
    exact Feed.readHeaders_malformed hsame hn0 hb
  | case4 block x n y hy hn0 later hb location hlocation hfollow =>
    obtain ⟨got, hgot, hn, hsame⟩ := brought_of_readLine hy
    refine .ok _ got hgot ?_
    intro after ending
    rw [← front_replay after ending (by omega)] at hb
    rw [hfollow, Feed.readHeaders_redirect (hsame after ending).2 hn0 hb hlocation,
      ← replay_consume after ending hn]
    rfl
  | case5 block x n y hy hn0 later hb hlocation ih =>
    obtain ⟨got, hgot, hn, hsame⟩ := brought_of_readLine hy
    have hstay : follow = true → later.location = none := by
      intro hfollow
      cases h : later.location with
      | none => rfl
      | some location => exact (hlocation location hfollow h).elim
    refine .step (y := { y.consume (n + 2) with location := later.location.or y.location })
      got hgot ?_ ih
    intro after ending
    rw [← front_replay after ending (by omega)] at hb
    rw [Feed.readHeaders_line (hsame after ending).2 hn0 hb hstay,
      ← replay_consume after ending hn]
    rfl

/-! ## The body -/

/-- A window that is waited for is filled with what came, or nothing did, and then the stream that
is replayed has ended. -/
theorem replays_ensurePending (x : Exchange) :
    x.ensurePending.Replays x (Feed.fillTo 1) := by
  unfold ensurePending
  split
  · next hnil =>
    have hfill := replays_fillTo (x.window.pending.length + 1) x
    rw [fill]
    rwa [hnil] at hfill ⊢
  · next hne =>
    have hpos := List.length_pos_iff.2 hne
    apply Outcome.Replays.of_ok rfl
    intro after ending
    apply if_pos
    rw [length_replay_bytes]
    omega

/-- A body of a known length is replayed. How it is cut into slices hangs on what was received at a
time, which the outline leaves out. -/
theorem replays_copy (n : Nat) (x : Exchange) : (x.copy n).Replays x (Feed.copy n) := by
  fun_induction copy n x with
  | case1 x =>
    apply Outcome.Replays.of_ok rfl
    intro after ending
    rw [Feed.copy_zero]
  | case2 n x h0 e y hy =>
    obtain ⟨got, ending, f, hgot, hsame, hrecord⟩ := (hy ▸ replays_ensurePending x).cases_error
    obtain ⟨hshort, rfl, rfl⟩ := Feed.fillTo_eq_error hsame
    have hnil : (x.replay got ending).bytes = [] := List.length_eq_zero_iff.1 (by omega)
    have hpass : ((x.replay got ending).pass n).toRecord = (x.replay got ending).toRecord := by
      simp [Feed.pass, Feed.tell, Feed.front, Feed.consume, hnil]
    refine .error _ got ending _ hgot ?_ (hrecord.trans hpass.symm)
    exact if_neg (by rw [hnil, List.length_nil]; omega)
  | case3 n x h0 u y hy slice ih =>
    obtain ⟨got, hgot, hsame⟩ := (hy ▸ replays_ensurePending x).cases_ok
    have hpos := List.length_pos_iff.2 (pending_ne_nil_of_ensurePending hy)
    have hlength : slice.length = min n y.window.pending.length := List.length_take
    have hslice : slice ≠ [] := List.length_pos_iff.1 (by omega)
    refine .step (y := (y.consume slice.length).deliver (.write slice)) got ?_ ?_ ih
    · show heard (y.trace ++ [.deliver (.write slice)]) = _
      rw [heard_append, hgot]
      exact List.append_nil _
    · intro after ending
      have hreplay : y.replay after ending = x.replay (got ++ after) ending :=
        Feed.fillTo_eq_ok (hsame after ending)
      have hfront : (y.replay after ending).front slice.length = slice := by
        rw [front_replay after ending (by omega), front, hlength, ← List.take_take,
          List.take_length]
        rfl
      have hbytes : slice.length ≤ (y.replay after ending).bytes.length := by
        rw [length_replay_bytes]
        omega
      rw [replay_deliver_write after ending hslice, replay_consume after ending (by omega),
        ← hreplay]
      have hpass : ((y.replay after ending).consume slice.length).tell slice
          = (y.replay after ending).pass slice.length := by
        rw [Feed.pass, hfront]
      rw [hpass, ← Feed.copy_add hbytes, Nat.add_sub_cancel' (by omega)]

/-- The size of a chunk is replayed as the line that it stands in. -/
theorem replays_readChunkSize (x : Exchange) :
    x.readChunkSize.Replays x Feed.readChunkSize := by
  rw [readChunkSize_eq]
  apply (replays_readLine x).andThen
  intro n y hy
  have hn := le_length_of_readLine hy
  have hfront (bytes : Bytes) (ending : StreamEnd) :
      (y.replay bytes ending).front n = y.front n := front_replay bytes ending (by omega)
  unfold takeChunkSize
  cases hsize : Chunk.parseSize (y.front n) with
  | error e =>
    refine .of_error .closed rfl (f := y.replay [] .closed) ?_ rfl
    rw [Feed.takeChunkSize, hfront, hsize]
  | ok size =>
    refine .of_ok (y := y.consume (n + 2)) rfl ?_
    intro after ending
    rw [Feed.takeChunkSize, hfront, hsize]
    dsimp only
    rw [← replay_consume after ending hn]

/-- Copying a body leaves the window as large as it was. -/
theorem capacity_copy (n : Nat) (x : Exchange) :
    (x.copy n).exchange.window.capacity = x.window.capacity := by
  have hcopy := replays_copy n x
  cases hy : x.copy n with
  | ok u y =>
    obtain ⟨got, -, hsame⟩ := (hy ▸ hcopy).cases_ok
    exact congrArg (·.capacity) (Feed.copy_eq_ok (hsame [] .closed)).2
  | error e y =>
    obtain ⟨got, ending, f, -, hsame, hrecord⟩ := (hy ▸ hcopy).cases_error
    unfold Feed.copy at hsame
    split at hsame
    · cases hsame
    · obtain ⟨-, rfl⟩ := EStateM.Result.error.inj hsame
      exact congrArg (·.capacity) hrecord

/-- Behind the size of a chunk come its data and the end of a line. -/
theorem replays_chunk {x y : Exchange} {size : Nat} {o : Outcome Unit}
    (hy : x.readChunkSize = .ok size y) (hsize : size ≠ 0)
    (h : o.Replays y fun f => DeviceHttp.andThen (f.copy size) fun _ f =>
      DeviceHttp.andThen (f.fillTo 2) fun _ => Feed.closeChunk) :
    o.Replays x Feed.readChunks := by
  obtain ⟨got, hgot, hsame⟩ := (hy ▸ replays_readChunkSize x).cases_ok
  exact .step got hgot (fun after ending => Feed.readChunks_of_size (hsame after ending) hsize) h

/-- A chunked body is replayed round by round. Each round hands on an exchange that has received
more, and the rounds that follow are replayed from there. -/
theorem replays_readChunks (x : Exchange) : x.readChunks.Replays x Feed.readChunks := by
  fun_induction readChunks x with
  | case1 x e y hy =>
    obtain ⟨got, ending, f, hgot, hsame, hrecord⟩ := (hy ▸ replays_readChunkSize x).cases_error
    exact .error e got ending f hgot (Feed.readChunks_of_error hsame) hrecord
  | case2 x y hy =>
    obtain ⟨got, hgot, hsame⟩ := (hy ▸ replays_readChunkSize x).cases_ok
    refine .ok () got ?_ ?_
    · show heard (y.trace ++ [.deliver (.write [])]) = _
      rw [heard_append, hgot]
      exact List.append_nil _
    · intro after ending
      rw [Feed.readChunks_of_ok (hsame after ending), if_pos rfl, ← replay_deliverAll]
      rfl
  | case3 x size y hy hsize e z hz =>
    apply replays_chunk hy hsize
    exact (hz ▸ replays_copy size y : Outcome.Replays y (Feed.copy size) (.error e z)).andThen_error
  | case4 x size y hy hsize u z hz e w hw =>
    apply replays_chunk hy hsize
    apply (hz ▸ replays_copy size y).andThen (k := fun _ _ => .error e w)
    rintro _ _ ⟨⟩
    exact (hw ▸ replays_fillTo 2 z : Outcome.Replays z (Feed.fillTo 2) (.error e w)).andThen_error
  | case5 x size y hy hsize u z hz v w hw hcrlf ih =>
    have hlength := congrArg List.length hcrlf
    have htwo : 2 ≤ w.window.pending.length := by
      simp only [front, Window.crlf, List.length_take, List.length_cons, List.length_nil]
        at hlength
      omega
    apply replays_chunk hy hsize
    apply (hz ▸ replays_copy size y).andThen (k := fun _ _ => (w.consume 2).readChunks)
    rintro _ _ ⟨⟩
    apply (hw ▸ replays_fillTo 2 z).andThen (k := fun _ _ => (w.consume 2).readChunks)
    rintro _ _ ⟨⟩
    refine .step (y := w.consume 2) [] (List.append_nil _).symm ?_ ih
    intro after ending
    rw [List.nil_append, Feed.closeChunk, front_replay after ending htwo, if_pos hcrlf,
      replay_consume after ending htwo]
  | case6 x size y hy hsize u z hz v w hw hcrlf =>
    have htwo : 2 ≤ w.window.pending.length := by
      have hroom := two_le_capacity_of_readChunkSize hy
      have hcapacity := Outcome.exchange_of_ok hz ▸ capacity_copy size y
      have hfill := le_length_of_fillTo hw
      omega
    apply replays_chunk hy hsize
    apply (hz ▸ replays_copy size y).andThen (k := fun _ _ => .error .protocol w)
    rintro _ _ ⟨⟩
    apply (hw ▸ replays_fillTo 2 z).andThen (k := fun _ _ => .error .protocol w)
    rintro _ _ ⟨⟩
    refine .of_error .closed rfl (f := w.replay [] .closed) ?_ rfl
    rw [Feed.closeChunk, front_replay [] .closed htwo, if_neg hcrlf]

theorem replays_readBody (framing : Framing) (x : Exchange) :
    (x.readBody framing).Replays x (Feed.readBody framing) := by
  cases framing with
  | length n => exact replays_copy n x
  | chunked => exact replays_readChunks x

/-! ## The whole response -/

/-- Whatever a peer did, the response came out as if the peer had sent what was received, and no
more. -/
theorem replays_readResponse (follow : Bool) (x : Exchange) :
    Outcome.Replays x (Feed.readResponse follow) (Client.readResponse follow x) := by
  rw [readResponse_eq]
  apply (replays_readStatus x).andThen
  intro status y _
  unfold judge Feed.judge
  split
  · apply (replays_readHeaders follow {} y).andThen
    intro next z _
    cases next with
    | redirect location => exact .of_ok rfl fun _ _ => rfl
    | body framing =>
      apply (replays_readBody framing z).andThen
      intro _ w _
      exact .of_ok rfl fun _ _ => rfl
  · exact .of_error .closed rfl rfl rfl

end Exchange

end DeviceHttp
