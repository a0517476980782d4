import DeviceHttp.Proofs.Transfer.Attempts
import DeviceHttp.Proofs.Transfer.Reading
import DeviceHttp.Proofs.Transfer.Sending
import Mathlib.Data.List.Forall2

/-!
# Transactions do not see the pieces

Two networks that deliver the same streams, connection by connection, cut into different pieces give
the same transactions. On one connection this is `agree_converse`: the request goes out before
anything is received, and what is read from the response depends on the feed, which is the same.
From there the attempts of a transaction run in lockstep. What each attempt hands on to the next is
compared by `Client.Recut`, which leaves the bytes in the window out: every attempt clears them.
-/

namespace DeviceHttp

/-- Two peers that send the same stream, cut into different pieces, and are alike in all else. -/
structure Peer.Recut (p q : Peer) : Prop where
  left : p.Steady
  right : q.Steady
  stream : p.stream = q.stream
  ending : p.ending = q.ending
  others : q = { p with arrivals := q.arrivals, greedy := q.greedy }

/-- Two clients that differ at most in how their peers cut what they send, and in the bytes that
were left unread. -/
structure Client.Recut (c d : Client) : Prop where
  capacity : c.window.capacity = d.window.capacity
  network : List.Forall₂ (Option.Rel Peer.Recut) c.network d.network
  authorization : c.authorization = d.authorization
  headers : c.headers = d.headers
  attempts : c.attempts = d.attempts
  status : c.status = d.status
  location : c.location = d.location

/-- Two transactions that differ at most where the cuts of a response show. -/
structure Transaction.Recut {α : Type} (t u : Transaction α) : Prop where
  result : t.result = u.result
  client : t.client.Recut u.client
  source : t.source = u.source
  outline : outline t.events = outline u.events

/-- Two transactions that look the same from outside: to the caller, to the network up to the
receives, and to the sink up to the cuts of the body. -/
structure Transaction.Alike {α : Type} (t u : Transaction α) : Prop where
  result : t.result = u.result
  status : t.client.status = u.client.status
  location : t.client.location = u.client.location
  requests : requests t.events = requests u.events
  announcements : Delivery.announcements t.deliveries = Delivery.announcements u.deliveries
  written : Delivery.written t.deliveries = Delivery.written u.deliveries
  endMarks : Delivery.endMarks t.deliveries = Delivery.endMarks u.deliveries

/-- Attempts that look alike stay so behind events that look alike. -/
theorem Transaction.Recut.after {α : Type} {t u : Transaction α} {events others : List Event}
    (hevents : DeviceHttp.outline events = DeviceHttp.outline others) (h : t.Recut u) :
    (t.after events).Recut (u.after others) where
  result := h.result
  client := h.client
  source := h.source
  outline := by
    unfold Transaction.after
    rw [outline_append, outline_append, hevents, h.outline]

/-! ## One connection -/

namespace Exchange

/-- Two outcomes with the same result, and the same record behind it. -/
structure Outcome.Agree {α : Type} (o p : Outcome α) : Prop where
  result : o.result = p.result
  record : o.exchange.record = p.exchange.record

/-- Two outcomes that one reading of a feed accounts for agree: they have one result, and what is
seen of both is the record of that feed. -/
theorem Outcome.Shows.agree {α : Type} {o p : Outcome α} {r : Feed.Outcome α} (h : o.Shows r)
    (k : p.Shows r) : o.Agree p := by
  cases o with
  | ok a x =>
    rcases h.of_ok with ⟨rfl, -⟩
    cases p with
    | ok b y =>
      rcases EStateM.Result.ok.inj k.of_ok.1 with ⟨rfl, hfeed⟩
      exact ⟨rfl, congrArg (·.toRecord) hfeed⟩
    | error e y =>
      rcases k.of_error with ⟨f, hf, -⟩
      cases hf
  | error e x =>
    rcases h.of_error with ⟨f, rfl, hrecord⟩
    cases p with
    | ok b y => cases k.of_ok.1
    | error e' y =>
      rcases k.of_error with ⟨g, hg, krecord⟩
      rcases EStateM.Result.error.inj hg with ⟨rfl, rfl⟩
      exact ⟨rfl, hrecord.trans krecord.symm⟩

/-- One connection: the pieces of the response make no difference to the conversation. -/
theorem agree_converse {arrivals : List Arrival} {greedy : Bool} (head : RequestHead)
    (follow : Bool) {x : Exchange} (h : x.peer.Recut (x.hearing arrivals greedy).peer) :
    Outcome.Agree (Client.converse head follow x)
      (Client.converse head follow (x.hearing arrivals greedy)) := by
  rw [converse_eq, converse_eq, sendRequest_hearing]
  have hsent := sent_sendRequest head x
  cases hy : x.sendRequest head with
  | error e y => exact ⟨rfl, rfl⟩
  | ok u y =>
    rw [hy] at hsent
    have hleft : y.peer.Steady := hsent.steady h.left
    have hright : (y.hearing arrivals greedy).peer.Steady :=
      ⟨hleft.isConnected, hleft.hangUpAfter, h.right.nonEmpty⟩
    have hstream : y.peer.stream = (y.hearing arrivals greedy).peer.stream :=
      hsent.stream.trans h.stream
    have hending : y.peer.ending = (y.hearing arrivals greedy).peer.ending :=
      hsent.ending.trans h.ending
    -- behind the request the two exchanges have the same feed
    have hfeed : ({ y with window := y.window.clear } : Exchange).feed
        = Exchange.feed { y.hearing arrivals greedy with window := y.window.clear } := by
      unfold feed
      rw [hstream, hending]
      rfl
    have kleft := shows_readResponse follow (x := { y with window := y.window.clear }) hleft
    have kright := shows_readResponse follow
      (x := { y.hearing arrivals greedy with window := y.window.clear }) hright
    rw [← hfeed] at kright
    exact kleft.agree kright

end Exchange

/-! ## The attempts of a transaction -/

namespace Client

variable {c d : Client}

theorem Recut.requestHead (h : c.Recut d) (method : Method) (url : Url)
    (source : Option Source) :
    c.requestHead method url source = d.requestHead method url source := by
  unfold Client.requestHead
  rw [h.authorization, h.headers]

/-- Two exchanges of such clients start alike: they differ in what their peers will send, and in
nothing that sending looks at. -/
theorem Recut.startExchange {p q : Peer} (h : c.Recut d) (hp : p.Recut q)
    (source : Option Source) (timeout : Nat) :
    d.startExchange q source timeout
      = (c.startExchange p source timeout).hearing q.arrivals q.greedy := by
  unfold Client.startExchange Exchange.hearing
  rw [Window.clear_eq_of_capacity_eq h.capacity, h.status, h.location]
  dsimp only
  rw [← hp.others]

/-- Exchanges that agree leave clients that differ no more than before. -/
theorem Recut.leave {x y : Exchange} (h : c.Recut d) (hxy : x.record = y.record) :
    (c.leave x).Recut (d.leave y) where
  capacity := congrArg Record.capacity hxy
  network := h.network
  authorization := h.authorization
  headers := h.headers
  attempts := h.attempts
  status := congrArg Record.status hxy
  location := congrArg Record.location hxy

/-- One exchange does not see the pieces: both requests go out before anything is received, and the
responses are the same feed. -/
theorem Recut.exchangeWith {p q : Peer} (h : c.Recut d) (hp : p.Recut q) (head : RequestHead)
    (source : Option Source) (follow : Bool) (timeout : Nat) :
    (c.exchangeWith p head source follow timeout).Recut
      (d.exchangeWith q head source follow timeout) := by
  have hpeer : (c.startExchange p source timeout).peer.Recut
      ((c.startExchange p source timeout).hearing q.arrivals q.greedy).peer := by
    show p.Recut { p with arrivals := q.arrivals, greedy := q.greedy }
    rw [← hp.others]
    exact hp
  obtain ⟨hresult, hrecord⟩ := Exchange.agree_converse head follow hpeer
  rw [exchangeWith_eq, exchangeWith_eq, h.startExchange hp]
  refine ⟨hresult, h.leave hrecord, congrArg Record.source hrecord, ?_⟩
  dsimp only
  rw [outline_append, outline_append]
  exact congrArg (· ++ outline [.close]) (congrArg Record.outline hrecord)

/-- One attempt does not see the pieces, and it leaves two clients behind which differ in them at
most. So the next attempts can be compared in the same way. -/
theorem Recut.attempt (h : c.Recut d) (method : Method) (address : String)
    (source : Option Source) (follow : Bool) (timeout : Nat) :
    (c.attempt method address source follow timeout).Recut
      (d.attempt method address source follow timeout) := by
  unfold Client.attempt
  cases Url.parse address with
  | error e => exact ⟨rfl, h, rfl, rfl⟩
  | ok url =>
    dsimp only
    split
    · have hnetwork := h.network
      cases hc : c.network with
      | nil =>
        rw [hc, List.forall₂_nil_left_iff] at hnetwork
        rw [hnetwork]
        exact ⟨rfl, h, rfl, rfl⟩
      | cons first later =>
        rw [hc, List.forall₂_cons_left_iff] at hnetwork
        rcases hnetwork with ⟨first', later', hfirst, hlater, hd⟩
        have hrest : Recut { c with network := later } { d with network := later' } :=
          ⟨h.capacity, hlater, h.authorization, h.headers, h.attempts, h.status, h.location⟩
        rw [hd]
        cases hfirst with
        | some hp =>
          rw [h.requestHead]
          exact (hrest.exchangeWith hp _ _ _ _).after rfl
        | none => exact ⟨rfl, hrest, rfl, rfl⟩
    · exact ⟨rfl, h, rfl, rfl⟩

/-- The attempts of two transactions run in lockstep. The induction is over the budget, and carries
that the clients behind each attempt differ in nothing but the pieces. -/
theorem Recut.follow (h : c.Recut d) (method : Method) (timeout redirects : Nat)
    (address : String) (source : Option Source) :
    (c.follow method timeout redirects address source).Recut
      (d.follow method timeout redirects address source) := by
  induction redirects generalizing c d address source with
  | zero =>
    rcases h.attempt method address source false timeout with ⟨hresult, hclient, hsource, houtline⟩
    unfold Client.follow
    dsimp only
    rw [← hresult]
    split
    · exact ⟨rfl, hclient, hsource, houtline⟩
    · exact ⟨rfl, hclient, hsource, houtline⟩
    · exact ⟨rfl, hclient, hsource, houtline⟩
  | succ redirects ih =>
    rcases h.attempt method address source true timeout with ⟨hresult, hclient, hsource, houtline⟩
    unfold Client.follow
    dsimp only
    rw [← hresult]
    split
    · exact ⟨rfl, hclient, hsource, houtline⟩
    · exact ⟨rfl, hclient, hsource, houtline⟩
    · rw [← hsource]
      exact (ih hclient _ _).after houtline

end Client

end DeviceHttp
