import DeviceHttp.Proofs.Transfer.ChunkGrammar
import DeviceHttp.Proofs.Transfer.Growth
import DeviceHttp.Proofs.Transfer.Outline
import DeviceHttp.Proofs.Transfer.Reply

/-!
# What a sink is handed

A body is described by its framing and by the bytes that stand behind the headers; `Content` says
what of them belongs to it and whether it came whole (`Feed.readBody_content`). What the sink is
called with follows from the outline of what was done, up to the cuts (`handed_of_outline`). Of the
cuts only one thing is known, which holds whatever the peer does: a slice comes out of the window, so
it is not wider than the window (`Exchange.Narrow`).
-/

namespace DeviceHttp

/-- The part of `bytes` that is the content of a body in this framing, and whether the body is
whole. -/
inductive Content (capacity : Nat) (bytes : Bytes) : Framing → Bytes → Bool → Prop
  | length (n : Nat) :
    Content capacity bytes (.length n) (bytes.take n) (decide (n ≤ bytes.length))
  | chunks {cs : List Chunk} {rest : Bytes} (accepts : Chunk.Accepts capacity bytes cs rest) :
    Content capacity bytes .chunked (Chunk.body cs) true
  | cut {ending : StreamEnd} {cs : List Chunk} {part : Bytes} {e : TransferError}
    (rejects : Chunk.Rejects capacity ending bytes cs part e) :
    Content capacity bytes .chunked (Chunk.body cs ++ part) false

/-- What marks the end of a body. -/
def Framing.endMark : Framing → Bool → List Delivery
  | .chunked, true => [.write []]
  | _, _ => []

/-- The end of a body is marked by one empty write or not at all. -/
theorem Framing.endMark_cases (framing : Framing) (whole : Bool) :
    framing.endMark whole = [] ∨ framing.endMark whole = [.write []] := by
  cases framing with
  | length n => exact .inl rfl
  | chunked =>
    cases whole with
    | true => exact .inr rfl
    | false => exact .inl rfl

theorem Framing.outline_endMark (framing : Framing) (whole : Bool) :
    outline ((framing.endMark whole).map .deliver) = (framing.endMark whole).map .deliver := by
  rcases framing.endMark_cases whole with h | h <;> rw [h] <;> rfl

/-- Reading a body leaves what is known, but for what the sink was told: the content and, if a body
in chunks is whole, its end. -/
theorem Feed.readBody_content (framing : Framing) (f : Feed) :
    ∃ content whole g, Content f.capacity f.bytes framing content whole ∧
      g.toRecord = ((f.tell content).deliverAll (framing.endMark whole)).toRecord ∧
      ((whole = true ∧ f.readBody framing = .ok () g) ∨
        (whole = false ∧ ∃ e, f.readBody framing = .error e g)) := by
  cases framing with
  | length n =>
    have hmark : (f.tell (f.bytes.take n)).deliverAll (Framing.endMark (.length n)
        (decide (n ≤ f.bytes.length))) = f.tell (f.bytes.take n) := by
      simp [Framing.endMark, deliverAll]
    refine ⟨_, _, f.pass n, .length n, by rw [hmark]; rfl, ?_⟩
    by_cases hn : n ≤ f.bytes.length
    · exact .inl ⟨decide_eq_true hn, if_pos hn⟩
    · exact .inr ⟨decide_eq_false hn, _, if_neg hn⟩
  | chunked =>
    rcases Chunk.accepts_or_rejects f.capacity f.ending f.bytes with
      ⟨cs, rest, haccepts⟩ | ⟨cs, part, e, hrejects⟩
    · refine ⟨_, true, _, .chunks haccepts, ?_, .inl ⟨rfl, readChunks_of_accepts haccepts⟩⟩
      rfl
    · obtain ⟨g, hg, hrecord⟩ := readChunks_of_rejects hrejects
      have hmark : (f.tell (Chunk.body cs ++ part)).deliverAll (Framing.endMark .chunked false)
          = f.tell (Chunk.body cs ++ part) := by
        simp [Framing.endMark, deliverAll]
      exact ⟨_, false, g, .cut hrejects, by rw [hmark, hrecord], .inr ⟨rfl, e, hg⟩⟩

/-! ## From the outline to the calls -/

/-- A call that announces something, and hands nothing over. -/
def Delivery.IsAnnouncement : Delivery → Prop
  | write _ => False
  | _ => True

/-- What a header block tells the sink comes before the body and is no part of it. -/
theorem HeaderBlock.isAnnouncement_of_mem {block : HeaderBlock} {call : Delivery}
    (h : call ∈ block.announcement) : call.IsAnnouncement := by
  unfold announcement at h
  rcases List.mem_cons.1 h with rfl | h
  · split <;> trivial
  · obtain ⟨value, -, rfl⟩ := Option.map_eq_some_iff.1 (Option.mem_toList.1 h)
    trivial

/-- An outline only takes slices of a body apart, so announcements stand in it as they are. -/
theorem outline_announcements {calls : List Delivery} (h : ∀ c ∈ calls, c.IsAnnouncement) :
    outline (calls.map .deliver) = calls.map .deliver := by
  induction calls with
  | nil => rfl
  | cons call calls ih =>
    obtain ⟨hcall, hcalls⟩ := List.forall_mem_cons.1 h
    rw [List.map_cons, outline_cons, ih hcalls]
    cases call with
    | write bytes => exact hcall.elim
    | _ => rfl

/-- In front of an announcement the sink was not called, and what comes behind it in the outline
comes behind it in the calls. -/
theorem deliveries_of_outline_eq_cons {events rest : List Event} {call : Delivery}
    (hcall : call.IsAnnouncement) (h : outline events = .deliver call :: rest) :
    ∃ later, outline later = rest ∧ deliveries events = call :: deliveries later := by
  induction events with
  | nil => cases h
  | cons e events ih =>
    rw [outline_cons] at h
    cases e with
    | receive room minimum timeout bytes => exact ih h
    | deliver first =>
      cases first with
      | write bytes =>
        cases bytes with
        | nil =>
          obtain rfl : Delivery.write [] = call := Event.deliver.inj (List.cons.inj h).1
          exact hcall.elim
        | cons b bs =>
          obtain rfl : Delivery.write [b] = call := Event.deliver.inj (List.cons.inj h).1
          exact hcall.elim
      | _ =>
        obtain ⟨hfirst, hrest⟩ := List.cons.inj h
        obtain rfl := Event.deliver.inj hfirst
        exact ⟨events, hrest, rfl⟩
    | _ =>
      have hfirst := (List.cons.inj h).1
      cases hfirst

/-- Events whose outline is an announcement, a body and the mark of its end are these calls, with the
body in slices. -/
theorem handed_of_outline {events : List Event} {calls mark : List Delivery} {body : Bytes}
    (hcalls : ∀ c ∈ calls, c.IsAnnouncement) (hmark : mark = [] ∨ mark = [.write []])
    (h : outline events
      = calls.map Event.deliver ++ (bytewise body ++ mark.map Event.deliver)) :
    ∃ slices : List Bytes, (∀ s ∈ slices, s ≠ []) ∧ slices.flatten = body ∧
      deliveries events = calls ++ slices.map .write ++ mark := by
  induction calls generalizing events with
  | nil =>
    have htail : mark.map Event.deliver = [] ∨ mark.map Event.deliver = [.deliver (.write [])] := by
      rcases hmark with rfl | rfl
      · exact .inl rfl
      · exact .inr rfl
    obtain ⟨_, ⟨slices, rfl, hne, hbody⟩, hdeliveries⟩ := slices_of_outline htail h
    have hback : deliveries (mark.map .deliver) = mark := by
      rcases hmark with rfl | rfl <;> rfl
    exact ⟨slices, hne, hbody, by rw [hdeliveries, hback]; rfl⟩
  | cons call calls ih =>
    obtain ⟨hcall, hrest⟩ := List.forall_mem_cons.1 hcalls
    obtain ⟨later, hlater, hdeliveries⟩ := deliveries_of_outline_eq_cons hcall h
    obtain ⟨slices, hne, hbody, hslices⟩ := ih hrest hlater
    exact ⟨slices, hne, hbody, by rw [hdeliveries, hslices]; rfl⟩

/-! ## How wide a slice is -/

namespace Exchange

/-- The window has this size, and no slice was wider. -/
structure Narrow (capacity : Nat) (x : Exchange) : Prop where
  window : x.window.capacity = capacity
  slices : ∀ s, Event.deliver (.write s) ∈ x.trace → s.length ≤ capacity

namespace Narrow

variable {capacity : Nat} {x y : Exchange}

/-- Waiting calls no sink, and leaves the window as wide as it was. -/
theorem wait (h : Narrow capacity x) (hadds : Adds Event.IsReceive x y)
    (hcapacity : y.window.capacity = x.window.capacity) : Narrow capacity y := by
  rcases hadds with ⟨new, htrace, hnew⟩
  refine ⟨hcapacity.trans h.window, ?_⟩
  intro s hs
  rw [htrace] at hs
  rcases List.mem_append.1 hs with hs | hs
  · exact h.slices s hs
  · exact (hnew _ hs).elim

/-- Only the size of the window and the trace count. -/
theorem congr (h : Narrow capacity x) (hcapacity : y.window.capacity = x.window.capacity)
    (htrace : y.trace = x.trace) : Narrow capacity y :=
  ⟨hcapacity.trans h.window, htrace ▸ h.slices⟩

theorem consume (n : Nat) (h : Narrow capacity x) : Narrow capacity (x.consume n) :=
  h.congr (capacity_window_consume n x) rfl

/-- One more event keeps to the width of the window, if it is no slice or a slice that fits in
it. -/
theorem note {e : Event} (h : Narrow capacity x)
    (he : ∀ s, e = .deliver (.write s) → s.length ≤ capacity) : Narrow capacity (x.note e) := by
  refine ⟨h.window, ?_⟩
  intro s hs
  rcases List.mem_append.1 hs with hs | hs
  · exact h.slices s hs
  · exact he s (List.mem_singleton.1 hs).symm

/-- What is announced is no slice, so it is as narrow as one could ask for. -/
theorem announce {calls : List Delivery} (h : Narrow capacity x)
    (hcalls : ∀ c ∈ calls, c.IsAnnouncement) : Narrow capacity (x.deliverAll calls) := by
  refine ⟨h.window, ?_⟩
  intro s hs
  rcases List.mem_append.1 hs with hs | hs
  · exact h.slices s hs
  · obtain ⟨call, hcall, heq⟩ := List.mem_map.1 hs
    obtain rfl := Event.deliver.inj heq
    exact (hcalls _ hcall).elim

/-- A chain of readers that keep to the window keeps to it. -/
theorem andThen {α β : Type} {o : Outcome α} {k : α → Exchange → Outcome β}
    (h : Narrow capacity o.exchange)
    (hnext : ∀ a y, o = .ok a y → Narrow capacity y → Narrow capacity (k a y).exchange) :
    Narrow capacity (Outcome.exchange (andThen o k)) := by
  cases o with
  | ok a y => exact hnext a y rfl h
  | error e y => exact h

end Narrow

variable {capacity : Nat} {x : Exchange}

theorem narrow_fillTo (want : Nat) (h : Narrow capacity x) :
    Narrow capacity (x.fillTo want).exchange :=
  h.wait (adds_fillTo want x) (capacity_fillTo want x)

theorem narrow_readLine (h : Narrow capacity x) : Narrow capacity x.readLine.exchange :=
  h.wait (adds_readLine x) (capacity_readLine x)

/-- No body is handed on in front of the headers. -/
theorem narrow_readStatus (h : Narrow capacity x) : Narrow capacity x.readStatus.exchange := by
  rw [readStatus_eq]
  apply (narrow_readLine h).andThen
  intro n y _ hy
  unfold takeStatus
  split
  · exact hy
  · exact (hy.consume (n + 2)).congr rfl rfl

/-- Behind the headers the sink is told how the body comes, and gets nothing of it yet. -/
theorem narrow_readHeaders (follow : Bool) (block : HeaderBlock) (h : Narrow capacity x) :
    Narrow capacity (x.readHeaders follow block).exchange := by
  have hline {x y : Exchange} {n : Nat} (hx : Narrow capacity x) (hy : x.readLine = .ok n y) :
      Narrow capacity y :=
    Outcome.exchange_of_ok hy ▸ narrow_readLine hx
  fun_induction readHeaders follow block x with
  | case1 block x e y hy => exact Outcome.exchange_of_error hy ▸ narrow_readLine h
  | case2 block x y hy =>
    exact ((hline h hy).consume 2).announce fun _ => HeaderBlock.isAnnouncement_of_mem
  | case3 block x n y hy hn e hb => exact hline h hy
  | case4 block x n y hy hn later hb location hlocation hfollow =>
    exact ((hline h hy).consume (n + 2)).congr rfl rfl
  | case5 block x n y hy hn later hb hlocation ih =>
    exact ih (((hline h hy).consume (n + 2)).congr rfl rfl)

theorem narrow_ensurePending (h : Narrow capacity x) :
    Narrow capacity x.ensurePending.exchange := by
  unfold ensurePending
  split
  · exact narrow_fillTo _ h
  · exact h

/-- A body is copied in slices, each of them the front of what waits in the window. So none is wider
than the window, whatever the peer sends at a time. -/
theorem narrow_copy (n : Nat) (h : Narrow capacity x) : Narrow capacity (x.copy n).exchange := by
  fun_induction copy n x with
  | case1 x => exact h
  | case2 n x h0 e y hy => exact Outcome.exchange_of_error hy ▸ narrow_ensurePending h
  | case3 n x h0 u y hy slice ih =>
    have hy : Narrow capacity y := Outcome.exchange_of_ok hy ▸ narrow_ensurePending h
    have hslice : slice.length ≤ capacity := by
      have hfits := y.window.fits
      have hlength : slice.length = min n y.window.pending.length := List.length_take
      rw [hy.window] at hfits
      omega
    apply ih ((hy.consume slice.length).note _)
    intro s hs
    obtain rfl := Delivery.write.inj (Event.deliver.inj hs)
    exact hslice

/-- The size of a chunk is read without a call of the sink. -/
theorem narrow_readChunkSize (h : Narrow capacity x) :
    Narrow capacity x.readChunkSize.exchange := by
  rw [readChunkSize_eq]
  apply (narrow_readLine h).andThen
  intro n y _ hy
  unfold takeChunkSize
  split
  · exact hy
  · exact hy.consume (n + 2)

/-- The data of each chunk is copied through the window, and the write that marks the end is
empty. -/
theorem narrow_readChunks (h : Narrow capacity x) : Narrow capacity x.readChunks.exchange := by
  have hsize {x y : Exchange} {size : Nat} (hx : Narrow capacity x)
      (hy : x.readChunkSize = .ok size y) : Narrow capacity y :=
    Outcome.exchange_of_ok hy ▸ narrow_readChunkSize hx
  have hcopy {x y : Exchange} {size : Nat} (hx : Narrow capacity x)
      (hy : x.copy size = .ok () y) : Narrow capacity y :=
    Outcome.exchange_of_ok hy ▸ narrow_copy size hx
  have hfill {x y : Exchange} (hx : Narrow capacity x) (hy : x.fillTo 2 = .ok () y) :
      Narrow capacity y :=
    Outcome.exchange_of_ok hy ▸ narrow_fillTo 2 hx
  fun_induction readChunks x with
  | case1 x e y hy => exact Outcome.exchange_of_error hy ▸ narrow_readChunkSize h
  | case2 x y hy =>
    apply (hsize h hy).note
    intro s hs
    obtain rfl := Delivery.write.inj (Event.deliver.inj hs)
    exact Nat.zero_le capacity
  | case3 x size y hy h0 e z hz =>
    exact Outcome.exchange_of_error hz ▸ narrow_copy size (hsize h hy)
  | case4 x size y hy h0 u z hz e w hw =>
    exact Outcome.exchange_of_error hw ▸ narrow_fillTo 2 (hcopy (hsize h hy) hz)
  | case5 x size y hy h0 u z hz v w hw hcrlf ih =>
    exact ih ((hfill (hcopy (hsize h hy) hz) hw).consume 2)
  | case6 x size y hy h0 u z hz v w hw hcrlf => exact hfill (hcopy (hsize h hy) hz) hw

theorem narrow_readBody (framing : Framing) (h : Narrow capacity x) :
    Narrow capacity (x.readBody framing).exchange := by
  cases framing with
  | length n => exact narrow_copy n h
  | chunked => exact narrow_readChunks h

/-- No slice of a response is wider than the window. This holds of every response, also of one that
breaks off. -/
theorem narrow_readResponse (follow : Bool) (h : Narrow capacity x) :
    Narrow capacity (Client.readResponse follow x).exchange := by
  rw [readResponse_eq]
  apply (narrow_readStatus h).andThen
  intro status y _ hy
  unfold judge
  split
  · apply (narrow_readHeaders follow {} hy).andThen
    intro next z _ hz
    cases next with
    | redirect location => exact hz
    | body framing =>
      apply (narrow_readBody framing hz).andThen
      intro _ w _ hw
      exact hw
  · exact hy

end Exchange

end DeviceHttp
