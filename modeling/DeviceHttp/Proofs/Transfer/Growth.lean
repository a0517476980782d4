import DeviceHttp.Proofs.Transfer.Sequence

/-!
# What reading adds to a trace

A trace only grows. `Exchange.Adds` says of which kind the new events are, whatever the peer does:
waiting adds receives, a body adds receives and slices, and a response adds receives and calls of
the sink. A response that is left because it names a location adds receives only, so nothing of it
reaches the sink.
-/

namespace DeviceHttp

namespace Event

/-- The event is a receive. -/
def IsReceive : Event → Prop
  | receive _ _ _ _ => True
  | _ => False

/-- The event is a receive, or it hands a slice to the sink. -/
def IsTransfer : Event → Prop
  | receive _ _ _ _ => True
  | deliver (.write _) => True
  | _ => False

/-- The event is a receive, or a call of the sink. -/
def IsReply : Event → Prop
  | receive _ _ _ _ => True
  | deliver _ => True
  | _ => False

theorem IsReceive.isTransfer {e : Event} (h : e.IsReceive) : e.IsTransfer := by
  cases e with
  | receive room minimum timeout bytes => trivial
  | _ => exact h.elim

theorem IsTransfer.isReply {e : Event} (h : e.IsTransfer) : e.IsReply := by
  cases e with
  | receive room minimum timeout bytes => trivial
  | deliver call => trivial
  | _ => exact h.elim

theorem IsReceive.delivery?_eq_none {e : Event} (h : e.IsReceive) : e.delivery? = none := by
  cases e with
  | receive room minimum timeout bytes => rfl
  | _ => exact h.elim

theorem eq_deliver_of_delivery? {e : Event} {call : Delivery} (h : e.delivery? = some call) :
    e = deliver call := by
  cases e with
  | deliver call' => exact congrArg deliver (Option.some.inj h)
  | _ => cases h

end Event

namespace Exchange

/-- Everything that was done between two exchanges is of one kind. -/
def Adds (kind : Event → Prop) (x y : Exchange) : Prop :=
  ∃ new, y.trace = x.trace ++ new ∧ ∀ e ∈ new, kind e

namespace Adds

variable {kind later : Event → Prop} {x y z : Exchange}

theorem refl (kind : Event → Prop) (x : Exchange) : Adds kind x x :=
  ⟨[], (List.append_nil _).symm, by simp⟩

/-- What is added in two steps is added one behind the other. -/
theorem trans (h : Adds kind x y) (k : Adds kind y z) : Adds kind x z := by
  rcases h with ⟨new, htrace, hnew⟩
  rcases k with ⟨more, ktrace, hmore⟩
  refine ⟨new ++ more, by rw [ktrace, htrace, List.append_assoc], ?_⟩
  intro e he
  rcases List.mem_append.1 he with he | he
  · exact hnew e he
  · exact hmore e he

theorem mono (h : Adds kind x y) (hkind : ∀ e, kind e → later e) : Adds later x y := by
  rcases h with ⟨new, htrace, hnew⟩
  refine ⟨new, htrace, ?_⟩
  intro e he
  exact hkind e (hnew e he)

/-- Receives are no business of the sink. -/
theorem deliveries_eq (h : Adds Event.IsReceive x y) : deliveries y.trace = deliveries x.trace := by
  rcases h with ⟨new, htrace, hnew⟩
  have hnone : deliveries new = [] := by
    apply List.filterMap_eq_nil_iff.2
    intro e he
    exact (hnew e he).delivery?_eq_none
  rw [htrace, deliveries_append, hnone, List.append_nil]

theorem transfer (h : Adds Event.IsReceive x y) : Adds Event.IsTransfer x y :=
  h.mono fun _ => Event.IsReceive.isTransfer

theorem reply (h : Adds Event.IsTransfer x y) : Adds Event.IsReply x y :=
  h.mono fun _ => Event.IsTransfer.isReply

end Adds

/-- What a chain adds, its links add. -/
theorem adds_andThen {kind : Event → Prop} {α β : Type} {first : Outcome α}
    {next : α → Exchange → Outcome β} {x : Exchange} (hfirst : Adds kind x first.exchange)
    (hnext : ∀ a y, Adds kind y (next a y).exchange) :
    Adds kind x (Outcome.exchange (andThen first next)) := by
  cases first with
  | ok a y => exact hfirst.trans (hnext a y)
  | error e y => exact hfirst

theorem adds_receive (minimum : Nat) (x : Exchange) :
    Adds Event.IsReceive x (x.receive minimum).2 :=
  ⟨_, rfl, by simp [Event.IsReceive]⟩

/-- Waiting for bytes adds receives and nothing else, whether they come or not. -/
theorem adds_fillTo (want : Nat) (x : Exchange) :
    Adds Event.IsReceive x (x.fillTo want).exchange := by
  have hreceive {x y : Exchange} {minimum : Nat} {got : Option Bytes}
      (hy : x.receive minimum = (got, y)) : Adds Event.IsReceive x y := by
    have hadds := adds_receive minimum x
    rw [hy] at hadds
    exact hadds
  fun_induction fillTo want x with
  | case1 x goal hlt hc y hy => exact hreceive hy
  | case2 x goal hlt hc y hy => exact hreceive hy
  | case3 x goal hlt hc b bs y hy ih => exact (hreceive hy).trans ih
  | case4 x goal hlt hc => exact .refl _ x
  | case5 x goal hge => exact .refl _ x

/-- Looking for a line adds receives and nothing else. -/
theorem adds_readLine (x : Exchange) : Adds Event.IsReceive x x.readLine.exchange := by
  fun_induction readLine x with
  | case1 x n hn => exact .refl _ x
  | case2 x hn hfull => exact .refl _ x
  | case3 x hn hfull e y hy =>
    exact Outcome.exchange_of_error hy ▸ adds_fillTo (x.window.pending.length + 1) x
  | case4 x hn hfull u y hy ih =>
    have hfill : Adds Event.IsReceive x y :=
      Outcome.exchange_of_ok hy ▸ adds_fillTo (x.window.pending.length + 1) x
    exact hfill.trans ih

/-- The status line adds receives only, so a status that is not accepted has told the sink
nothing. -/
theorem adds_readStatus (x : Exchange) : Adds Event.IsReceive x x.readStatus.exchange := by
  rw [readStatus_eq]
  apply adds_andThen (adds_readLine x)
  intro n y
  unfold takeStatus
  split
  · exact .refl _ y
  · exact .refl _ y

/-- A block of headers that ends at a location leaves the sink alone: what it would announce is
announced at its last line only. -/
theorem adds_readHeaders_of_redirect {follow : Bool} {block : HeaderBlock} {x y : Exchange}
    {location : String} (h : x.readHeaders follow block = .ok (.redirect location) y) :
    Adds Event.IsReceive x y := by
  fun_induction readHeaders follow block x with
  | case1 block x e z hz => cases h
  | case2 block x z hz => cases h
  | case3 block x n z hz hn e hb => cases h
  | case4 block x n z hz hn later hb location' hlocation hfollow =>
    rcases EStateM.Result.ok.inj h with ⟨-, rfl⟩
    have hline : Adds Event.IsReceive x z := Outcome.exchange_of_ok hz ▸ adds_readLine x
    exact hline
  | case5 block x n z hz hn later hb hlocation ih =>
    have hline : Adds Event.IsReceive x z := Outcome.exchange_of_ok hz ▸ adds_readLine x
    exact hline.trans (ih h)

/-- A header block adds receives, and the calls that tell the sink how the body comes. -/
theorem adds_readHeaders (follow : Bool) (block : HeaderBlock) (x : Exchange) :
    Adds Event.IsReply x (x.readHeaders follow block).exchange := by
  have hline {x y : Exchange} {n : Nat} (hy : x.readLine = .ok n y) : Adds Event.IsReply x y :=
    (Outcome.exchange_of_ok hy ▸ adds_readLine x : Adds Event.IsReceive x y).transfer.reply
  fun_induction readHeaders follow block x with
  | case1 block x e y hy =>
    have hlast : Adds Event.IsReceive x y := Outcome.exchange_of_error hy ▸ adds_readLine x
    exact hlast.transfer.reply
  | case2 block x y hy =>
    refine (hline hy).trans ⟨_, rfl, ?_⟩
    intro e he
    obtain ⟨call, -, rfl⟩ := List.mem_map.1 he
    trivial
  | case3 block x n y hy hn e hb => exact hline hy
  | case4 block x n y hy hn later hb location hlocation hfollow =>
    have hlast : Adds Event.IsReply x y := hline hy
    exact hlast
  | case5 block x n y hy hn later hb hlocation ih => exact (hline hy).trans ih

/-- The window is as wide behind the status line as in front of it. -/
theorem capacity_readStatus {x y : Exchange} {code : Nat} (h : x.readStatus = .ok code y) :
    y.window.capacity = x.window.capacity := by
  rw [readStatus_eq] at h
  rcases ok_of_andThen h with ⟨n, z, hz, htake⟩
  have hline := Outcome.exchange_of_ok hz ▸ capacity_readLine x
  unfold takeStatus at htake
  split at htake
  · cases htake
  · rcases EStateM.Result.ok.inj htake with ⟨-, rfl⟩
    exact (capacity_window_consume (n + 2) z).trans hline

/-- The window is as wide behind a location that is followed as in front of the headers. -/
theorem capacity_readHeaders_of_redirect {follow : Bool} {block : HeaderBlock} {x y : Exchange}
    {location : String} (h : x.readHeaders follow block = .ok (.redirect location) y) :
    y.window.capacity = x.window.capacity := by
  fun_induction readHeaders follow block x with
  | case1 block x e z hz => cases h
  | case2 block x z hz => cases h
  | case3 block x n z hz hn e hb => cases h
  | case4 block x n z hz hn later hb location' hlocation hfollow =>
    rcases EStateM.Result.ok.inj h with ⟨-, rfl⟩
    have hline := Outcome.exchange_of_ok hz ▸ capacity_readLine x
    exact (capacity_window_consume (n + 2) z).trans hline
  | case5 block x n z hz hn later hb hlocation ih =>
    have hline := Outcome.exchange_of_ok hz ▸ capacity_readLine x
    exact (ih h).trans ((capacity_window_consume (n + 2) z).trans hline)

/-- A response that is left for the location it names leaves the sink alone, so the sink never
learns that there was one. -/
theorem readResponse_of_redirect {follow : Bool} {x y : Exchange} {location : String}
    (h : Client.readResponse follow x = .ok (.redirect location) y) :
    Adds Event.IsReceive x y ∧ y.window.capacity = x.window.capacity := by
  rw [readResponse_eq] at h
  rcases ok_of_andThen h with ⟨code, z, hz, hjudge⟩
  unfold judge at hjudge
  split at hjudge
  · rcases ok_of_andThen hjudge with ⟨next, w, hw, hfinish⟩
    cases next with
    | redirect location' =>
      rcases EStateM.Result.ok.inj hfinish with ⟨-, rfl⟩
      have hstatus : Adds Event.IsReceive x z := Outcome.exchange_of_ok hz ▸ adds_readStatus x
      exact ⟨hstatus.trans (adds_readHeaders_of_redirect hw),
        (capacity_readHeaders_of_redirect hw).trans (capacity_readStatus hz)⟩
    | body framing =>
      rcases ok_of_andThen hfinish with ⟨u, v, hv, hdone⟩
      cases hdone
  · cases hjudge

theorem adds_ensurePending (x : Exchange) : Adds Event.IsReceive x x.ensurePending.exchange := by
  unfold ensurePending
  split
  · exact adds_fillTo _ x
  · exact .refl _ x

/-- Copying a body adds receives and slices in turn. -/
theorem adds_copy (n : Nat) (x : Exchange) : Adds Event.IsTransfer x (x.copy n).exchange := by
  fun_induction copy n x with
  | case1 x => exact .refl _ x
  | case2 n x h0 e y hy =>
    have hwait : Adds Event.IsReceive x y :=
      Outcome.exchange_of_error hy ▸ adds_ensurePending x
    exact hwait.transfer
  | case3 n x h0 u y hy slice ih =>
    have hwait : Adds Event.IsReceive x y := Outcome.exchange_of_ok hy ▸ adds_ensurePending x
    have hslice : Adds Event.IsTransfer y ((y.consume slice.length).deliver (.write slice)) :=
      ⟨_, rfl, by simp [Event.IsTransfer]⟩
    exact (hwait.transfer.trans hslice).trans ih

/-- The size of a chunk adds receives only. -/
theorem adds_readChunkSize (x : Exchange) :
    Adds Event.IsReceive x x.readChunkSize.exchange := by
  rw [readChunkSize_eq]
  apply adds_andThen (adds_readLine x)
  intro n y
  unfold takeChunkSize
  split
  · exact .refl _ y
  · exact .refl _ y

/-- Whatever comes of a body in chunks, reading it adds receives and slices, and the empty slice at
its end is one of them. -/
theorem adds_readChunks (x : Exchange) : Adds Event.IsTransfer x x.readChunks.exchange := by
  have hsize {x y : Exchange} {size : Nat} (hy : x.readChunkSize = .ok size y) :
      Adds Event.IsTransfer x y :=
    (Outcome.exchange_of_ok hy ▸ adds_readChunkSize x : Adds Event.IsReceive x y).transfer
  have hcopy {x y : Exchange} {size : Nat} (hy : x.copy size = .ok () y) :
      Adds Event.IsTransfer x y :=
    Outcome.exchange_of_ok hy ▸ adds_copy size x
  have hfill {x y : Exchange} (hy : x.fillTo 2 = .ok () y) : Adds Event.IsTransfer x y :=
    (Outcome.exchange_of_ok hy ▸ adds_fillTo 2 x : Adds Event.IsReceive x y).transfer
  fun_induction readChunks x with
  | case1 x e y hy =>
    have hfirst : Adds Event.IsReceive x y :=
      Outcome.exchange_of_error hy ▸ adds_readChunkSize x
    exact hfirst.transfer
  | case2 x y hy => exact (hsize hy).trans ⟨_, rfl, by simp [Event.IsTransfer]⟩
  | case3 x size y hy h0 e z hz =>
    exact (hsize hy).trans (Outcome.exchange_of_error hz ▸ adds_copy size y)
  | case4 x size y hy h0 u z hz e w hw =>
    have hlast : Adds Event.IsReceive z w := Outcome.exchange_of_error hw ▸ adds_fillTo 2 z
    exact ((hsize hy).trans (hcopy hz)).trans hlast.transfer
  | case5 x size y hy h0 u z hz v w hw hcrlf ih =>
    exact (((hsize hy).trans (hcopy hz)).trans (hfill hw)).trans ih
  | case6 x size y hy h0 u z hz v w hw hcrlf =>
    exact ((hsize hy).trans (hcopy hz)).trans (hfill hw)

theorem adds_readBody (framing : Framing) (x : Exchange) :
    Adds Event.IsTransfer x (x.readBody framing).exchange := by
  cases framing with
  | length n => exact adds_copy n x
  | chunked => exact adds_readChunks x

/-- Whatever comes of the status, going by it adds receives and calls of the sink. -/
theorem adds_judge (follow : Bool) (status : Nat) (x : Exchange) :
    Adds Event.IsReply x (judge follow status x).exchange := by
  unfold judge
  split
  · apply adds_andThen (adds_readHeaders follow {} x)
    intro next y
    cases next with
    | redirect location => exact .refl _ y
    | body framing =>
      apply adds_andThen (adds_readBody framing y).reply
      intro _ z
      exact .refl _ z
  · exact .refl _ x

/-- Whatever comes of a response, reading it adds receives and calls of the sink. -/
theorem adds_readResponse (follow : Bool) (x : Exchange) :
    Adds Event.IsReply x (Outcome.exchange (Client.readResponse follow x)) := by
  rw [readResponse_eq]
  exact adds_andThen (adds_readStatus x).transfer.reply (adds_judge follow)

end Exchange

end DeviceHttp
