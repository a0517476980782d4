import DeviceHttp.Proofs.Transfer.Outline
import DeviceHttp.Proofs.Transfer.Rounds
import DeviceHttp.Proofs.Transfer.Stream

/-!
# What a request leaves alone

While a request is sent nothing is received. So sending keeps what the peer has in store
(`Exchange.Sent`), and what the peer has in store makes no difference to sending: `hearing` puts
other arrivals behind a connection, and every function that sends commutes with it, as it does with
every view in which nothing is changed that sending looks at (`Exchange.Unseen`).
-/

namespace DeviceHttp

/-- The peer takes whatever it is sent. -/
structure Peer.Open (p : Peer) : Prop where
  isConnected : p.isConnected = true
  sendLimit : p.sendLimit = none
  failingSend : p.failingSend = none

namespace Exchange

/-- What an exchange keeps while it sends. -/
structure Sent (x y : Exchange) : Prop where
  peer : y.peer = { x.peer with sends := y.peer.sends, accepted := y.peer.accepted }
  window : y.window = x.window
  timeout : y.timeout = x.timeout
  status : y.status = x.status
  location : y.location = x.location
  trace : ∃ sends, y.trace = x.trace ++ sends ∧
    ∀ e ∈ sends, ∃ bytes accepted, e = .send bytes x.timeout accepted

namespace Sent

theorem refl (x : Exchange) : Sent x x :=
  ⟨rfl, rfl, rfl, rfl, rfl, [], (List.append_nil _).symm, by simp⟩

/-- What two steps keep is kept by both together, and the events add up. -/
theorem trans {x y z : Exchange} (h : Sent x y) (k : Sent y z) : Sent x z := by
  rcases h.trace with ⟨sends, htrace, hsends⟩
  rcases k.trace with ⟨later, ktrace, klater⟩
  refine ⟨?_, k.window.trans h.window, k.timeout.trans h.timeout, k.status.trans h.status,
    k.location.trans h.location, sends ++ later, ?_, ?_⟩
  · rw [k.peer, h.peer]
  · rw [ktrace, htrace, List.append_assoc]
  · intro e he
    rcases List.mem_append.1 he with he | he
    · exact hsends e he
    · obtain ⟨bytes, accepted, rfl⟩ := klater e he
      exact ⟨bytes, accepted, by rw [h.timeout]⟩

theorem source (x : Exchange) (source : Option Source) : Sent x { x with source } :=
  ⟨rfl, rfl, rfl, rfl, rfl, [], (List.append_nil _).symm, by simp⟩

theorem stream {x y : Exchange} (h : Sent x y) : y.peer.stream = x.peer.stream := by
  rw [h.peer]
  rfl

theorem ending {x y : Exchange} (h : Sent x y) : y.peer.ending = x.peer.ending := by
  rw [h.peer]
  rfl

theorem steady {x y : Exchange} (h : Sent x y) (hx : x.peer.Steady) : y.peer.Steady := by
  rw [h.peer]
  exact ⟨hx.isConnected, hx.hangUpAfter, hx.nonEmpty⟩

theorem capacity {x y : Exchange} (h : Sent x y) : y.window.capacity = x.window.capacity := by
  rw [h.window]

/-- Sending calls no sink. -/
theorem deliveries_eq {x y : Exchange} (h : Sent x y) :
    deliveries y.trace = deliveries x.trace := by
  rcases h.trace with ⟨sends, htrace, hsends⟩
  have hnone : deliveries sends = [] := by
    apply List.filterMap_eq_nil_iff.2
    intro e he
    obtain ⟨bytes, accepted, rfl⟩ := hsends e he
    rfl
  rw [htrace, deliveries_append, hnone, List.append_nil]

end Sent

theorem peer_send (bytes : Bytes) (p : Peer) :
    (p.send bytes).2
      = { p with sends := (p.send bytes).2.sends, accepted := (p.send bytes).2.accepted } := by
  unfold Peer.send
  split <;> rfl

/-- A send changes the peer and the trace, and leaves the rest of the exchange as it was, however it
is answered. -/
theorem exchange_send (bytes : Bytes) (x : Exchange) :
    (x.send bytes).exchange
      = { x with peer := (x.peer.send bytes).2 }.note
          (.send bytes x.timeout (x.peer.send bytes).1) := by
  unfold send
  dsimp only
  split
  · next h => rw [Outcome.exchange, h]
  · next h =>
    split <;> rw [Outcome.exchange, h]

theorem sent_send (bytes : Bytes) (x : Exchange) : Sent x (x.send bytes).exchange := by
  rw [exchange_send]
  exact ⟨peer_send bytes x.peer, rfl, rfl, rfl, rfl, _, rfl, by simp⟩

/-- Sending pieces keeps what sending one of them keeps. -/
theorem sent_sendAll (pieces : List Bytes) (x : Exchange) :
    Sent x (x.sendAll pieces).exchange := by
  induction pieces generalizing x with
  | nil => exact .refl x
  | cons piece pieces ih =>
    have hpiece := sent_send piece x
    rw [sendAll]
    cases hy : x.send piece with
    | error e y =>
      rw [hy] at hpiece
      exact hpiece
    | ok u y =>
      rw [hy] at hpiece
      exact hpiece.trans (ih y)

/-- Sending a body of known length keeps the stream of the peer and the window. -/
theorem sent_sendLength (remaining : Nat) (source : Source) (x : Exchange) :
    Sent x (x.sendLength remaining source).exchange := by
  fun_induction sendLength remaining source x with
  | case1 source x => exact .refl x
  | case2 remaining source x h0 read y hnil => exact .source x _
  | case3 remaining source x h0 read y hread e z hz =>
    exact (Sent.source x _).trans (hz ▸ sent_send read.1 y)
  | case4 remaining source x h0 read y hread u z hz ih =>
    exact ((Sent.source x _).trans (hz ▸ sent_send read.1 y)).trans ih

/-- Sending a body in chunks keeps the stream of the peer and the window. -/
theorem sent_sendChunks (source : Source) (x : Exchange) :
    Sent x (x.sendChunks source).exchange := by
  fun_induction sendChunks source x with
  | case1 source x read y e z hz => exact (Sent.source x _).trans (hz ▸ sent_send _ y)
  | case2 source x read y u z hz hnil =>
    exact ((Sent.source x _).trans (hz ▸ sent_send _ y)).trans (sent_send _ z)
  | case3 source x read y u z hz hread e w hw =>
    exact ((Sent.source x _).trans (hz ▸ sent_send _ y)).trans (hw ▸ sent_sendAll _ z)
  | case4 source x read y u z hz hread v w hw ih =>
    have hchunk := sent_sendAll [read.1, Window.crlf] z
    rw [hw] at hchunk
    exact (((Sent.source x _).trans (hz ▸ sent_send _ y)).trans hchunk).trans ih

/-- Whichever way a body is sent, nothing is received meanwhile. -/
theorem sent_sendBody (x : Exchange) : Sent x x.sendBody.exchange := by
  unfold sendBody
  split
  · exact .refl x
  · split
    · exact sent_sendChunks _ x
    · exact sent_sendLength _ _ x

/-- Send a request. -/
def sendRequest (head : RequestHead) (x : Exchange) : Outcome Unit :=
  andThen (x.sendHead head) fun _ x => x.sendBody

/-- While a request goes out nothing is received, whatever becomes of it. So the response is read
from the whole stream of the peer. -/
theorem sent_sendRequest (head : RequestHead) (x : Exchange) :
    Sent x (x.sendRequest head).exchange := by
  have hhead : Sent x (x.sendHead head).exchange := sent_sendAll _ x
  unfold sendRequest
  cases hy : x.sendHead head with
  | error e y =>
    rw [hy] at hhead
    exact hhead
  | ok u y =>
    rw [hy] at hhead
    exact hhead.trans (sent_sendBody y)

/-- A request is sent whole before the response is read, from an empty window. -/
theorem converse_eq (head : RequestHead) (follow : Bool) (x : Exchange) :
    Client.converse head follow x =
      andThen (x.sendRequest head) fun _ x =>
        Client.readResponse follow { x with window := x.window.clear } := by
  unfold Client.converse sendRequest
  cases x.sendHead head with
  | error e y => rfl
  | ok u y =>
    unfold andThen
    dsimp only
    cases y.sendBody <;> rfl

/-! ## Peers that take everything -/

/-- An outcome that is a success and leaves a peer that takes everything. -/
def Outcome.Taken (o : Outcome Unit) : Prop :=
  ∃ y, o = .ok () y ∧ y.peer.Open

/-- A peer that takes whatever it is sent takes a piece whole, and goes on like that. -/
theorem taken_send (bytes : Bytes) {x : Exchange} (hx : x.peer.Open) : (x.send bytes).Taken := by
  have hsend : x.peer.send bytes = (some bytes.length,
      { x.peer with sends := x.peer.sends + 1, accepted := x.peer.accepted + bytes.length }) := by
    simp [Peer.send, hx.isConnected, hx.sendLimit, hx.failingSend]
  unfold send
  rw [hsend]
  dsimp only
  rw [if_neg (Nat.lt_irrefl _)]
  exact ⟨_, rfl, hx.isConnected, hx.sendLimit, hx.failingSend⟩

/-- A peer that takes whatever it is sent takes all pieces. -/
theorem taken_sendAll (pieces : List Bytes) {x : Exchange} (hx : x.peer.Open) :
    (x.sendAll pieces).Taken := by
  induction pieces generalizing x with
  | nil => exact ⟨x, rfl, hx⟩
  | cons piece pieces ih =>
    rcases taken_send piece hx with ⟨y, hy, hopen⟩
    rw [sendAll, hy]
    exact ih hopen

/-- A peer that takes whatever it is sent takes a body of known length to its end. -/
theorem taken_sendLength (remaining : Nat) (source : Source) {x : Exchange} (hx : x.peer.Open) :
    (x.sendLength remaining source).Taken := by
  fun_induction sendLength remaining source x with
  | case1 source x => exact ⟨x, rfl, hx⟩
  | case2 remaining source x h0 read y hnil => exact ⟨y, rfl, hx⟩
  | case3 remaining source x h0 read y hread e z hz =>
    rcases taken_send read.1 (x := y) hx with ⟨z', hz', -⟩
    cases hz.symm.trans hz'
  | case4 remaining source x h0 read y hread u z hz ih =>
    rcases taken_send read.1 (x := y) hx with ⟨z', hz', hopen⟩
    rcases EStateM.Result.ok.inj (hz.symm.trans hz') with ⟨-, rfl⟩
    exact ih hopen

/-- A peer that takes whatever it is sent takes every chunk, and the end of the body. -/
theorem taken_sendChunks (source : Source) {x : Exchange} (hx : x.peer.Open) :
    (x.sendChunks source).Taken := by
  fun_induction sendChunks source x with
  | case1 source x read y e z hz =>
    rcases taken_send (Chunk.sizeLine read.1.length) (x := y) hx with ⟨z', hz', -⟩
    cases hz.symm.trans hz'
  | case2 source x read y u z hz hnil =>
    rcases taken_send (Chunk.sizeLine read.1.length) (x := y) hx with ⟨z', hz', hopen⟩
    rcases EStateM.Result.ok.inj (hz.symm.trans hz') with ⟨-, rfl⟩
    exact taken_send Window.crlf hopen
  | case3 source x read y u z hz hread e w hw =>
    rcases taken_send (Chunk.sizeLine read.1.length) (x := y) hx with ⟨z', hz', hopen⟩
    rcases EStateM.Result.ok.inj (hz.symm.trans hz') with ⟨-, rfl⟩
    rcases taken_sendAll [read.1, Window.crlf] hopen with ⟨w', hw', -⟩
    cases hw.symm.trans hw'
  | case4 source x read y u z hz hread v w hw ih =>
    rcases taken_send (Chunk.sizeLine read.1.length) (x := y) hx with ⟨z', hz', hopen⟩
    rcases EStateM.Result.ok.inj (hz.symm.trans hz') with ⟨-, rfl⟩
    rcases taken_sendAll [read.1, Window.crlf] hopen with ⟨w', hw', hopen⟩
    rcases EStateM.Result.ok.inj (hw.symm.trans hw') with ⟨-, rfl⟩
    exact ih hopen

/-- A peer that takes whatever it is sent takes the body, if there is one. -/
theorem taken_sendBody {x : Exchange} (hx : x.peer.Open) : x.sendBody.Taken := by
  unfold sendBody
  split
  · exact ⟨x, rfl, hx⟩
  · split
    · exact taken_sendChunks _ hx
    · exact taken_sendLength _ _ hx

/-- A peer that takes everything gets the whole request. -/
theorem taken_sendRequest (head : RequestHead) {x : Exchange} (hx : x.peer.Open) :
    (x.sendRequest head).Taken := by
  rcases taken_sendAll (pieces x.window.capacity (Utf8.ofString head.text)) hx with ⟨y, hy, hopen⟩
  rw [sendRequest, sendHead, hy]
  exact taken_sendBody hopen

/-! ## One round of a body -/

/-- One round of a body of known length: a read, the piece that it gave and the loop behind it. A
read that gives nothing ends the body early. -/
theorem sendLength_round {remaining : Nat} {source : Source} (x : Exchange)
    (read : Bytes × Source) (y : Exchange) (h0 : remaining ≠ 0)
    (hread : source.read (min remaining x.window.capacity) = read)
    (hy : { x with source := some read.2 } = y) :
    x.sendLength remaining source =
      if read.1 = [] then .ok () y
      else
        match y.send read.1 with
        | .error e z => .error e z
        | .ok _ z => sendLength (remaining - read.1.length) read.2 z := by
  subst hread hy
  rw [sendLength, dif_neg h0]
  rfl

/-- One round of a body in chunks: a read, the size line, and either the data and the loop behind it
or the end. -/
theorem sendChunks_round {source : Source} (x : Exchange) (read : Bytes × Source) (y : Exchange)
    (hread : source.read x.window.capacity = read) (hy : { x with source := some read.2 } = y) :
    x.sendChunks source =
      match y.send (Chunk.sizeLine read.1.length) with
      | .error e z => .error e z
      | .ok _ z =>
        if read.1 = [] then z.send Window.crlf
        else
          match z.sendAll [read.1, Window.crlf] with
          | .error e w => .error e w
          | .ok _ w => sendChunks read.2 w := by
  subst hread hy
  rw [sendChunks]
  rfl

/-! ## What sending does not see -/

/-- A view of an exchange that changes nothing that sending looks at. -/
structure Unseen (view : Exchange → Exchange) : Prop where
  window : ∀ x, (view x).window = x.window
  source : ∀ x, (view x).source = x.source
  put : ∀ source x, { view x with source } = view { x with source }
  send : ∀ bytes x, (view x).send bytes = onState view (x.send bytes)

section Unseen

variable {view : Exchange → Exchange}

/-- Pieces go out in such a view as they do in the exchange. -/
theorem Unseen.sendAll (h : Unseen view) (pieces : List Bytes) (x : Exchange) :
    (view x).sendAll pieces = onState view (x.sendAll pieces) := by
  induction pieces generalizing x with
  | nil => rfl
  | cons piece pieces ih =>
    rw [Exchange.sendAll, Exchange.sendAll, h.send]
    cases x.send piece with
    | error e y => rfl
    | ok u y => exact ih y

/-- A body of known length goes out in such a view as it does in the exchange. The induction is over
the rounds, with the source that is left after each. -/
theorem Unseen.sendLength (h : Unseen view) (remaining : Nat) (source : Source) (x : Exchange) :
    (view x).sendLength remaining source = onState view (x.sendLength remaining source) := by
  fun_induction Exchange.sendLength remaining source x with
  | case1 source x =>
    rw [Exchange.sendLength]
    rfl
  | case2 remaining source x h0 read y hnil =>
    rw [sendLength_round (view x) read (view y) h0 (by rw [h.window]) (h.put _ x), if_pos hnil]
    rfl
  | case3 remaining source x h0 read y hread e z hz =>
    rw [sendLength_round (view x) read (view y) h0 (by rw [h.window]) (h.put _ x), if_neg hread,
      h.send, hz]
    rfl
  | case4 remaining source x h0 read y hread u z hz ih =>
    rw [sendLength_round (view x) read (view y) h0 (by rw [h.window]) (h.put _ x), if_neg hread,
      h.send, hz]
    exact ih

/-- A body in chunks goes out in such a view as it does in the exchange. -/
theorem Unseen.sendChunks (h : Unseen view) (source : Source) (x : Exchange) :
    (view x).sendChunks source = onState view (x.sendChunks source) := by
  fun_induction Exchange.sendChunks source x with
  | case1 source x read y e z hz =>
    rw [sendChunks_round (view x) read (view y) (by rw [h.window]) (h.put _ x), h.send, hz]
    rfl
  | case2 source x read y u z hz hnil =>
    rw [sendChunks_round (view x) read (view y) (by rw [h.window]) (h.put _ x), h.send, hz]
    exact (if_pos hnil).trans (h.send _ z)
  | case3 source x read y u z hz hread e w hw =>
    rw [sendChunks_round (view x) read (view y) (by rw [h.window]) (h.put _ x), h.send, hz]
    apply (if_neg hread).trans
    rw [h.sendAll, hw]
    rfl
  | case4 source x read y u z hz hread v w hw ih =>
    rw [sendChunks_round (view x) read (view y) (by rw [h.window]) (h.put _ x), h.send, hz]
    apply (if_neg hread).trans
    rw [h.sendAll, hw]
    exact ih

/-- A body goes out in such a view as it does in the exchange, whichever way it is sent. -/
theorem Unseen.sendBody (h : Unseen view) (x : Exchange) :
    (view x).sendBody = onState view x.sendBody := by
  unfold Exchange.sendBody
  rw [h.source]
  cases x.source with
  | none => rfl
  | some source =>
    dsimp only
    cases source.framing with
    | chunked => exact h.sendChunks source x
    | length n => exact h.sendLength n source x

/-- What is changed in such a view makes no difference to a request. -/
theorem Unseen.sendRequest (h : Unseen view) (head : RequestHead) (x : Exchange) :
    (view x).sendRequest head = onState view (x.sendRequest head) := by
  unfold Exchange.sendRequest sendHead
  rw [h.window, h.sendAll]
  exact andThen_onState fun _ y _ => h.sendBody y

end Unseen

/-! ## Other arrivals -/

/-- The exchange with other arrivals behind its connection. -/
def hearing (arrivals : List Arrival) (greedy : Bool) (x : Exchange) : Exchange :=
  { x with peer := { x.peer with arrivals, greedy } }

/-- An outcome with other arrivals behind the connection. -/
def Outcome.hearing {α : Type} (arrivals : List Arrival) (greedy : Bool) :
    Outcome α → Outcome α
  | .ok a x => .ok a (x.hearing arrivals greedy)
  | .error e x => .error e (x.hearing arrivals greedy)

section Hearing

variable (arrivals : List Arrival) (greedy : Bool)

theorem onState_hearing {α : Type} (o : Outcome α) :
    onState (Exchange.hearing arrivals greedy) o = o.hearing arrivals greedy := by
  cases o <;> rfl

theorem peer_send_hearing (bytes : Bytes) (p : Peer) :
    Peer.send bytes { p with arrivals, greedy }
      = ((p.send bytes).1, { (p.send bytes).2 with arrivals, greedy }) := by
  unfold Peer.send
  split <;> rfl

/-- What a peer will send, and how eagerly, is nothing that sending looks at. -/
theorem unseen_hearing : Unseen (hearing arrivals greedy) where
  window _ := rfl
  source _ := rfl
  put _ _ := rfl
  send bytes x := by
    unfold send hearing
    rw [peer_send_hearing]
    dsimp only
    cases (x.peer.send bytes).1 with
    | none => rfl
    | some n =>
      dsimp only
      split <;> rfl

/-- What arrives makes no difference to sending. -/
theorem sendRequest_hearing (head : RequestHead) (x : Exchange) :
    (x.hearing arrivals greedy).sendRequest head
      = (x.sendRequest head).hearing arrivals greedy := by
  rw [← onState_hearing]
  exact (unseen_hearing arrivals greedy).sendRequest head x

end Hearing

end Exchange

end DeviceHttp
