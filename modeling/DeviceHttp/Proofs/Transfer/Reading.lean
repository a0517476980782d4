import DeviceHttp.Proofs.Transfer.Feed
import DeviceHttp.Proofs.Transfer.Growth

/-!
# Reading through the window

Every reader of an exchange does what its counterpart does on the feed: `Outcome.Shows` relates the
outcomes, and `shows_readResponse` is the statement for a whole response. So an outcome depends on
the stream alone, and all that the pieces decide is left out of a feed: the receives, and the slices
of the body.

A loop is followed through its own recursion. One round of it does not change the feed beyond what
the same round does there, whatever the window holds at the time.
-/

namespace DeviceHttp.Exchange

/-- An outcome and its counterpart on the feed. The peer stays steady up to a failure; behind one,
only the record is compared. -/
inductive Outcome.Shows {α : Type} : Outcome α → Feed.Outcome α → Prop
  | ok (a : α) {x : Exchange} (steady : x.peer.Steady) : Shows (.ok a x) (.ok a x.feed)
  | error (e : TransferError) {x : Exchange} {f : Feed} (record : x.record = f.toRecord) :
    Shows (.error e x) (.error e f)

section Inversion

variable {α : Type} {x : Exchange} {r : Feed.Outcome α}

theorem Outcome.Shows.of_ok {a : α} (h : Outcome.Shows (.ok a x) r) :
    r = .ok a x.feed ∧ x.peer.Steady := by
  cases h with
  | ok _ steady => exact ⟨rfl, steady⟩

theorem Outcome.Shows.of_error {e : TransferError} (h : Outcome.Shows (.error e x) r) :
    ∃ f : Feed, r = .error e f ∧ x.record = f.toRecord := by
  cases h with
  | error _ record => exact ⟨_, rfl, record⟩

/-- Chains of readers that do the same on the feed, do the same on the feed. -/
theorem Outcome.Shows.andThen {β : Type} {o : Outcome α} {next : α → Exchange → Outcome β}
    {next' : α → Feed → Feed.Outcome β} (h : o.Shows r)
    (hnext : ∀ a y, o = .ok a y → y.peer.Steady → Outcome.Shows (next a y) (next' a y.feed)) :
    Outcome.Shows (andThen o next) (DeviceHttp.andThen r next') := by
  cases h with
  | ok a steady => exact hnext a _ rfl steady
  | error e record => exact .error e record

end Inversion

/-! ## Waiting -/

theorem record_receive (minimum : Nat) (x : Exchange) :
    (x.receive minimum).2.record = x.record := by
  simp [receive, note, record]

/-- A receive finds the end of the stream, or it only moves bytes into the window. -/
theorem feed_receive (minimum : Nat) {x : Exchange} (hx : x.peer.Steady)
    (hroom : x.window.pending.length < x.window.capacity) :
    (x.peer.stream = [] ∧ (x.receive minimum).1 = x.peer.ending.answer) ∨
      (∃ got y, x.receive minimum = (some got, y) ∧ got ≠ [] ∧ y.peer.Steady ∧
        y.feed = x.feed) := by
  by_cases h : x.peer.stream = []
  · exact .inl ⟨h, Peer.receive_of_stream_eq_nil hx _ h⟩
  · have hpos : 0 < x.window.compact.room := by
      rw [Window.room_compact]
      omega
    obtain ⟨got, q, hreceive, hgot, hq, hstream, hending⟩ :=
      Peer.receive_of_stream_ne_nil hx hpos h
    have hpeer : (x.receive minimum).2.peer = q := congrArg Prod.snd hreceive
    have hgiven : (x.receive minimum).1 = some got := congrArg Prod.fst hreceive
    refine .inr ⟨got, (x.receive minimum).2, Prod.ext hgiven rfl, hgot, hpeer ▸ hq, ?_⟩
    have hpending := pending_receive minimum x
    rw [hgiven, Option.getD_some] at hpending
    have htrace : received (x.receive minimum).2.trace = received x.trace + got.length := by
      show received (x.trace ++ [.receive _ _ _ (x.peer.receive x.window.compact.room).1]) = _
      rw [received_append, hreceive, received_receive, Option.getD_some]
    have hlength := congrArg List.length hstream
    rw [List.length_append] at hlength
    unfold feed
    rw [record_receive, hpeer, hpending, hending, htrace, List.append_assoc, hstream,
      ← hlength, Nat.add_assoc]

theorem length_feed_bytes (x : Exchange) :
    x.feed.bytes.length = x.window.pending.length + x.peer.stream.length :=
  List.length_append

/-- A receive that brings nothing is the end of a stream that is too short. Waiting fails on the
feed too, with the error for that end. -/
theorem shows_end {want minimum : Nat} {x y : Exchange} {e : TransferError} {got : Option Bytes}
    (hx : x.peer.Steady) (hlt : x.window.pending.length < min want x.window.capacity)
    (hy : x.receive minimum = (got, y)) (hgot : got.getD [] = [])
    (he : ∀ ending : StreamEnd, ending.answer = got → ending.error = e) :
    Outcome.Shows (.error e y) (x.feed.fillTo want) := by
  rcases feed_receive minimum hx (by omega) with ⟨hstream, hanswer⟩ | ⟨got', y', hy', hne, -, -⟩
  · rw [hy] at hanswer
    have hlength := length_feed_bytes x
    rw [hstream, List.length_nil] at hlength
    have hshort : ¬ min want x.feed.capacity ≤ x.feed.bytes.length := by
      show ¬ min want x.window.capacity ≤ _
      omega
    rw [Feed.fillTo, if_neg hshort, show x.feed.ending.error = e from he _ hanswer.symm]
    have hrecord := record_receive minimum x
    rw [hy] at hrecord
    exact .error e hrecord
  · rw [hy] at hy'
    rcases Prod.mk.inj hy' with ⟨rfl, -⟩
    exact absurd hgot hne

/-- Waiting for bytes does nothing to the feed: what is received only moves from the peer into the
window. It fails where the feed has too few of them. -/
theorem shows_fillTo (want : Nat) {x : Exchange} (hx : x.peer.Steady) :
    (x.fillTo want).Shows (x.feed.fillTo want) := by
  fun_induction fillTo want x with
  | case1 x goal hlt hc y hy =>
    exact shows_end hx hlt hy rfl fun _ => StreamEnd.error_of_answer_eq_none
  | case2 x goal hlt hc y hy =>
    exact shows_end hx hlt hy rfl fun _ => StreamEnd.error_of_answer_eq_some
  | case3 x goal hlt hc b bs y hy ih =>
    rcases feed_receive (goal - x.window.pending.length) hx (by omega) with
      ⟨-, hanswer⟩ | ⟨got, y', hy', -, hsteady, hfeed⟩
    · rw [hy] at hanswer
      cases hending : x.peer.ending <;> rw [hending] at hanswer <;> cases hanswer
    · obtain rfl : y = y' := congrArg Prod.snd (hy.symm.trans hy')
      rw [← hfeed]
      exact ih hsteady
  | case4 x goal hlt hc => exact absurd hx.isConnected hc
  | case5 x goal hge =>
    have henough : min want x.feed.capacity ≤ x.feed.bytes.length := by
      rw [length_feed_bytes]
      exact Nat.le_trans (Nat.le_of_not_lt hge) (Nat.le_add_right _ _)
    rw [Feed.fillTo, if_pos henough]
    exact .ok () hx

/-! ## Lines -/

/-- As much of a feed as a window holds starts with what the window holds. -/
theorem take_feed_bytes (x : Exchange) :
    x.feed.bytes.take x.feed.capacity
      = x.window.pending ++ x.peer.stream.take (x.window.capacity - x.window.pending.length) := by
  have hfits := x.window.fits
  show (x.window.pending ++ x.peer.stream).take x.window.capacity = _
  rw [List.take_append, List.take_of_length_le (by omega)]

theorem lineLength?_feed_of_some {x : Exchange} {n : Nat} (h : x.window.lineLength? = some n) :
    x.feed.lineLength? = some n := by
  rcases Option.map_eq_some_iff.1 h with ⟨⟨line, rest⟩, hcut, rfl⟩
  rw [Feed.lineLength?, take_feed_bytes, Cut.around_append_right hcut]
  rfl

/-- Without a line in the window there is none, once the window is full or the stream is over. -/
theorem lineLength?_feed_of_none {x : Exchange} (h : x.window.lineLength? = none)
    (hall : x.window.capacity ≤ x.window.pending.length ∨ x.peer.stream = []) :
    x.feed.lineLength? = none := by
  have hcut : Cut.around Window.crlf x.window.pending = none := Option.map_eq_none_iff.1 h
  have hnone : x.peer.stream.take (x.window.capacity - x.window.pending.length) = [] := by
    rw [List.take_eq_nil_iff]
    rcases hall with hfull | hover
    · exact .inl (by omega)
    · exact .inr hover
  rw [Feed.lineLength?, take_feed_bytes, hnone, List.append_nil, hcut]
  rfl

/-- A line is found in the window exactly if it is found in the feed. The search goes on with every
receive, from the place where the one before it came to an end. -/
theorem shows_readLine {x : Exchange} (hx : x.peer.Steady) :
    x.readLine.Shows x.feed.readLine := by
  fun_induction readLine x with
  | case1 x n hn =>
    rw [Feed.readLine, lineLength?_feed_of_some hn]
    exact .ok n hx
  | case2 x hn hfull =>
    have hfull : x.window.capacity ≤ x.window.pending.length := by
      simpa [Window.isFull] using hfull
    have hlong : x.window.capacity ≤ x.feed.bytes.length := by
      rw [length_feed_bytes]
      exact Nat.le_trans hfull (Nat.le_add_right _ _)
    have hcause : x.feed.lineError = .protocol := if_pos hlong
    rw [Feed.readLine, lineLength?_feed_of_none hn (.inl hfull), hcause]
    exact .error _ rfl
  | case3 x hn hfull e y hy =>
    have hfull := Window.lt_of_not_isFull hfull
    have hfill := shows_fillTo (x.window.pending.length + 1) hx
    rw [show x.fillTo (x.window.pending.length + 1) = .error e y from hy] at hfill
    rcases hfill.of_error with ⟨f, hf, hrecord⟩
    -- one more byte was not to be had, so the stream is over
    obtain ⟨hshort, rfl, rfl⟩ := Feed.fillTo_eq_error hf
    have hshort : x.feed.bytes.length < min (x.window.pending.length + 1) x.window.capacity :=
      hshort
    rw [length_feed_bytes] at hshort
    have hover : x.peer.stream = [] := List.length_eq_zero_iff.1 (by omega)
    have hlong : ¬ x.window.capacity ≤ x.feed.bytes.length := by
      rw [length_feed_bytes]
      omega
    have hcause : x.feed.lineError = x.feed.ending.error := if_neg hlong
    rw [Feed.readLine, lineLength?_feed_of_none hn (.inr hover), hcause]
    exact .error _ hrecord
  | case4 x hn hfull u y hy ih =>
    have hfill := shows_fillTo (x.window.pending.length + 1) hx
    rw [show x.fillTo (x.window.pending.length + 1) = .ok u y from hy] at hfill
    rcases hfill.of_ok with ⟨hf, hsteady⟩
    have hfeed : y.feed = x.feed := Feed.fillTo_eq_ok hf
    rw [← hfeed]
    exact ih hsteady

/-! ## Consuming and delivering -/

/-- What is consumed in the window is consumed at the front of the feed. -/
theorem feed_consume {n : Nat} {x : Exchange} (h : n ≤ x.window.pending.length) :
    (x.consume n).feed = x.feed.consume n := by
  have hbytes : (x.consume n).feed.bytes = x.feed.bytes.drop n := by
    show (x.window.consume n).pending ++ x.peer.stream = (x.window.pending ++ x.peer.stream).drop n
    rw [Window.pending_consume, List.drop_append_of_le_length h]
  have hrecord : (x.consume n).record = x.record := by
    simp [record, consume]
  exact congr (congrArg (fun r b => Feed.mk r b x.peer.ending _) hrecord) hbytes

theorem front_feed {n : Nat} {x : Exchange} (h : n ≤ x.window.pending.length) :
    x.feed.front n = x.front n :=
  List.take_append_of_le_length h

theorem feed_deliverAll (calls : List Delivery) (x : Exchange) :
    (x.deliverAll calls).feed = x.feed.deliverAll calls := by
  simp [feed, record, deliverAll, Feed.deliverAll, received_deliver]

/-- A slice goes to the feed's sink byte by byte. -/
theorem feed_deliver_write {slice : Bytes} (h : slice ≠ []) (x : Exchange) :
    (x.deliver (.write slice)).feed = x.feed.tell slice := by
  have hreceived : received [Event.deliver (.write slice)] = 0 := rfl
  simp [feed, record, deliver, note, Feed.tell, outline_write h, hreceived]

/-! ## Status and headers -/

/-- The status line is read as on the feed, and the status is remembered before it decides. -/
theorem shows_readStatus {x : Exchange} (hx : x.peer.Steady) :
    x.readStatus.Shows x.feed.readStatus := by
  rw [readStatus_eq]
  apply (shows_readLine hx).andThen
  intro n y hy hsteady
  have hn := le_length_of_readLine hy
  unfold takeStatus Feed.takeStatus
  rw [front_feed (by omega)]
  cases StatusLine.parse (y.front n) with
  | error e => exact .error e rfl
  | ok code =>
    have hshown : { y.consume (n + 2) with status := code }.feed
        = { y.feed.consume (n + 2) with status := code } := by
      rw [← feed_consume hn]
      rfl
    dsimp only
    rw [← hshown]
    exact .ok code hsteady

/-- A header block is read as on the feed, line by line. Each round consumes its line in the window
and in the feed alike, so the induction goes on with two that belong together. -/
theorem shows_readHeaders (follow : Bool) (block : HeaderBlock) {x : Exchange}
    (hx : x.peer.Steady) :
    (x.readHeaders follow block).Shows (x.feed.readHeaders follow block) := by
  fun_induction readHeaders follow block x with
  | case1 block x e y hy =>
    rcases (hy ▸ shows_readLine hx).of_error with ⟨f, hf, hrecord⟩
    rw [Feed.readHeaders_of_error hf]
    exact .error e hrecord
  | case2 block x y hy =>
    rcases (hy ▸ shows_readLine hx).of_ok with ⟨hf, hsteady⟩
    have hn := le_length_of_readLine hy
    rw [Feed.readHeaders_blank hf, ← feed_consume (by omega), ← feed_deliverAll]
    exact .ok _ hsteady
  | case3 block x n y hy hn0 e hb =>
    rcases (hy ▸ shows_readLine hx).of_ok with ⟨hf, -⟩
    have hn := le_length_of_readLine hy
    rw [← front_feed (by omega)] at hb
    rw [Feed.readHeaders_malformed hf hn0 hb]
    exact .error e rfl
  | case4 block x n y hy hn0 later hb location hlocation hfollow =>
    rcases (hy ▸ shows_readLine hx).of_ok with ⟨hf, hsteady⟩
    have hn := le_length_of_readLine hy
    rw [← front_feed (by omega)] at hb
    rw [hfollow, Feed.readHeaders_redirect hf hn0 hb hlocation, ← feed_consume hn]
    exact .ok _ hsteady
  | case5 block x n y hy hn0 later hb hlocation ih =>
    rcases (hy ▸ shows_readLine hx).of_ok with ⟨hf, hsteady⟩
    have hn := le_length_of_readLine hy
    rw [← front_feed (by omega)] at hb
    have hstay : follow = true → later.location = none := by
      intro hfollow
      cases h : later.location with
      | none => rfl
      | some location => exact (hlocation location hfollow h).elim
    rw [Feed.readHeaders_line hf hn0 hb hstay, ← feed_consume hn]
    exact ih hsteady

/-! ## The body -/

/-- One byte in the window is one byte of the feed; there is none only where the stream has
ended. -/
theorem shows_ensurePending {x : Exchange} (hx : x.peer.Steady) :
    x.ensurePending.Shows (x.feed.fillTo 1) := by
  unfold ensurePending
  split
  · next hnil =>
    have hfill := shows_fillTo (x.window.pending.length + 1) hx
    rw [hnil] at hfill
    rw [fill, hnil]
    exact hfill
  · next hne =>
    have hpos := List.length_pos_iff.2 hne
    have henough : min 1 x.feed.capacity ≤ x.feed.bytes.length := by
      rw [length_feed_bytes]
      omega
    rw [Feed.fillTo, if_pos henough]
    exact .ok () hx

/-- The body is copied in slices as they happen to be in the window, and on the feed as one. The
sink sees the same bytes, which is all that an outline keeps of them. -/
theorem shows_copy (n : Nat) {x : Exchange} (hx : x.peer.Steady) :
    (x.copy n).Shows (x.feed.copy n) := by
  fun_induction copy n x with
  | case1 x =>
    rw [Feed.copy_zero]
    exact .ok () hx
  | case2 n x h0 e y hy =>
    rcases (hy ▸ shows_ensurePending hx).of_error with ⟨f, hf, hrecord⟩
    obtain ⟨hshort, rfl, rfl⟩ := Feed.fillTo_eq_error hf
    have hnil : x.feed.bytes = [] := List.length_eq_zero_iff.1 (by omega)
    have hpass : (x.feed.pass n).toRecord = x.feed.toRecord := by
      simp [Feed.pass, Feed.tell, Feed.front, Feed.consume, hnil]
    rw [Feed.copy, if_neg (by rw [hnil, List.length_nil]; omega)]
    exact .error _ (hrecord.trans hpass.symm)
  | case3 n x h0 u y hy slice ih =>
    rcases (hy ▸ shows_ensurePending hx).of_ok with ⟨hf, hsteady⟩
    have hfeed : y.feed = x.feed := Feed.fillTo_eq_ok hf
    have hpos := List.length_pos_iff.2 (pending_ne_nil_of_ensurePending hy)
    have hlength : slice.length = min n y.window.pending.length := List.length_take
    have hslice : slice ≠ [] := List.length_pos_iff.1 (by omega)
    have hfront : y.feed.front slice.length = slice := by
      rw [front_feed (by omega), front, hlength, ← List.take_take, List.take_length]
      rfl
    have hpass : ((y.consume slice.length).deliver (.write slice)).feed
        = y.feed.pass slice.length := by
      rw [feed_deliver_write hslice, feed_consume (by omega), Feed.pass, hfront]
    have hbytes : slice.length ≤ y.feed.bytes.length := by
      rw [length_feed_bytes]
      omega
    have hcopy : x.feed.copy n = (y.feed.pass slice.length).copy (n - slice.length) := by
      rw [← hfeed, ← Feed.copy_add hbytes, Nat.add_sub_cancel' (by omega)]
    rw [hcopy, ← hpass]
    exact ih hsteady

/-- The line with the size of a chunk is read as on the feed, and consumed there as well. -/
theorem shows_readChunkSize {x : Exchange} (hx : x.peer.Steady) :
    x.readChunkSize.Shows x.feed.readChunkSize := by
  rw [readChunkSize_eq]
  apply (shows_readLine hx).andThen
  intro n y hy hsteady
  have hn := le_length_of_readLine hy
  unfold takeChunkSize Feed.takeChunkSize
  rw [front_feed (by omega)]
  cases Chunk.parseSize (y.front n) with
  | error e => exact .error e rfl
  | ok size =>
    dsimp only
    rw [← feed_consume hn]
    exact .ok size hsteady

/-- A window that held a line has room for the end of a line. -/
theorem two_le_capacity_of_readChunkSize {x y : Exchange} {size : Nat}
    (h : x.readChunkSize = .ok size y) : 2 ≤ y.window.capacity := by
  rw [readChunkSize_eq] at h
  rcases ok_of_andThen h with ⟨n, z, hz, htake⟩
  have hn := le_length_of_readLine hz
  have hfits := z.window.fits
  unfold takeChunkSize at htake
  split at htake
  · cases htake
  · rcases EStateM.Result.ok.inj htake with ⟨-, rfl⟩
    rw [capacity_window_consume]
    omega

/-- A chunked body is read as on the feed. A round is the size, the data and the line end; each of
them does the same on the feed, and the rounds that follow do so by induction. -/
theorem shows_readChunks {x : Exchange} (hx : x.peer.Steady) :
    x.readChunks.Shows x.feed.readChunks := by
  fun_induction readChunks x with
  | case1 x e y hy =>
    rcases (hy ▸ shows_readChunkSize hx).of_error with ⟨f, hf, hrecord⟩
    rw [Feed.readChunks_of_error hf]
    exact .error e hrecord
  | case2 x y hy =>
    rcases (hy ▸ shows_readChunkSize hx).of_ok with ⟨hf, hsteady⟩
    rw [Feed.readChunks_of_ok hf, if_pos rfl, ← feed_deliverAll]
    exact .ok () hsteady
  | case3 x size y hy hsize e z hz =>
    rcases (hy ▸ shows_readChunkSize hx).of_ok with ⟨hf, hsteady⟩
    rcases (hz ▸ shows_copy size hsteady).of_error with ⟨g, hg, hrecord⟩
    rw [Feed.readChunks_of_ok hf, if_neg hsize, hg]
    exact .error e hrecord
  | case4 x size y hy hsize u z hz e w hw =>
    rcases (hy ▸ shows_readChunkSize hx).of_ok with ⟨hf, hsteady⟩
    rcases (hz ▸ shows_copy size hsteady).of_ok with ⟨hg, hsteady⟩
    rcases (hw ▸ shows_fillTo 2 hsteady).of_error with ⟨k, hk, hrecord⟩
    rw [Feed.readChunks_of_ok hf, if_neg hsize, hg]
    dsimp only
    rw [hk]
    exact .error e hrecord
  | case5 x size y hy hsize u z hz v w hw hcrlf ih =>
    rcases (hy ▸ shows_readChunkSize hx).of_ok with ⟨hf, hsteady⟩
    rcases (hz ▸ shows_copy size hsteady).of_ok with ⟨hg, hsteady⟩
    rcases (hw ▸ shows_fillTo 2 hsteady).of_ok with ⟨hk, hsteady⟩
    have hcrlf' := congrArg List.length hcrlf
    have htwo : 2 ≤ w.window.pending.length := by
      simp only [front, Window.crlf, List.length_take, List.length_cons, List.length_nil]
        at hcrlf'
      omega
    rw [Feed.readChunks_of_ok hf, if_neg hsize, hg]
    dsimp only
    rw [hk]
    dsimp only
    rw [front_feed htwo, if_pos hcrlf, ← feed_consume htwo]
    exact ih hsteady
  | case6 x size y hy hsize u z hz v w hw hcrlf =>
    rcases (hy ▸ shows_readChunkSize hx).of_ok with ⟨hf, hsteady⟩
    rcases (hz ▸ shows_copy size hsteady).of_ok with ⟨hg, hsteady⟩
    rcases (hw ▸ shows_fillTo 2 hsteady).of_ok with ⟨hk, -⟩
    have hcapacity : z.window.capacity = y.window.capacity :=
      congrArg (·.capacity) (Feed.copy_eq_ok hg).2
    have htwo : 2 ≤ w.window.pending.length := by
      have hroom := two_le_capacity_of_readChunkSize hy
      have hfill := le_length_of_fillTo hw
      omega
    rw [Feed.readChunks_of_ok hf, if_neg hsize, hg]
    dsimp only
    rw [hk]
    dsimp only
    rw [front_feed htwo, if_neg hcrlf]
    exact .error _ rfl

theorem shows_readBody (framing : Framing) {x : Exchange} (hx : x.peer.Steady) :
    (x.readBody framing).Shows (x.feed.readBody framing) := by
  cases framing with
  | length n => exact shows_copy n hx
  | chunked => exact shows_readChunks hx

/-! ## The whole response -/

/-- What comes of a response depends on its stream alone: neither the result nor what the sink is
told of it shows where the stream was cut. -/
theorem shows_readResponse (follow : Bool) {x : Exchange} (hx : x.peer.Steady) :
    Outcome.Shows (Client.readResponse follow x) (x.feed.readResponse follow) := by
  rw [readResponse_eq]
  apply (shows_readStatus hx).andThen
  intro status y _ hsteady
  unfold judge Feed.judge
  split
  · apply (shows_readHeaders follow {} hsteady).andThen
    intro next z _ hsteady
    cases next with
    | redirect location => exact .ok _ hsteady
    | body framing =>
      apply (shows_readBody framing hsteady).andThen
      intro _ w _ hsteady
      exact .ok _ hsteady
  · exact .error _ rfl

end DeviceHttp.Exchange
