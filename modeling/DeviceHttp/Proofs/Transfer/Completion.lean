import DeviceHttp.Proofs.Transfer.Attempts
import DeviceHttp.Proofs.Transfer.Demand
import DeviceHttp.Proofs.Transfer.Reply
import DeviceHttp.Proofs.Transfer.Sending

/-!
# The response that ends a transaction

A transaction follows locations from attempt to attempt (`Client.Hops`) until one of them gets a
response that ends it. That response is taken to its last byte and no further: if it comes whole the
transaction succeeds without a receive that waits for bytes behind it, and if the peer closes in
front of its last byte, wherever that is, the transaction fails as closed.
-/

namespace DeviceHttp

namespace Exchange

/-- The exchange has sent its request and is about to read the response of this peer. -/
structure Awaits (peer : Peer) (x : Exchange) : Prop where
  steady : x.peer.Steady
  bytes : x.feed.bytes = peer.stream
  ending : x.feed.ending = peer.ending
  total : x.feed.total = peer.stream.length
  sends : ∀ e ∈ x.trace, ∃ bytes timeout accepted, e = .send bytes timeout accepted

/-- Once the request is sent and the window is cleared, the whole stream of the peer is still to
come, and no receive has counted yet. -/
theorem awaits_of_sent {x y : Exchange} (h : Sent x y) (hx : x.peer.Steady)
    (htrace : x.trace = []) : Awaits x.peer { y with window := y.window.clear } := by
  rcases h.trace with ⟨sends, hsends, hkind⟩
  rw [htrace, List.nil_append] at hsends
  have hnone : ∀ e ∈ y.trace, ¬ e.IsReceive := by
    intro e he
    obtain ⟨bytes, accepted, rfl⟩ := hkind e (hsends ▸ he)
    exact id
  refine ⟨h.steady hx, h.stream, h.ending, ?_, ?_⟩
  · show received y.trace + y.peer.stream.length = _
    rw [received_eq_zero hnone, h.stream, Nat.zero_add]
  · intro e he
    obtain ⟨bytes, accepted, rfl⟩ := hkind e (hsends ▸ he)
    exact ⟨bytes, _, accepted, rfl⟩

namespace Awaits

variable {peer : Peer} {x : Exchange} {follow : Bool} {r : Reply}

theorem not_isReceive (h : Awaits peer x) : ∀ e ∈ x.trace, ¬ e.IsReceive := by
  intro e he
  rcases h.sends e he with ⟨bytes, timeout, accepted, rfl⟩
  exact id

theorem deliveries_eq_nil (h : Awaits peer x) : deliveries x.trace = [] := by
  apply List.filterMap_eq_nil_iff.2
  intro e he
  rcases h.sends e he with ⟨bytes, timeout, accepted, rfl⟩
  rfl

/-- A response that comes whole is read to its end, and nothing behind it is waited for. The sink has
its content. -/
theorem readResponse_whole {after : Bytes} (h : Awaits peer x)
    (hr : r.Final x.window.capacity follow) (hstream : peer.stream = r.bytes ++ after) :
    ∃ y, Client.readResponse follow x = .ok .complete y ∧ Within r.bytes.length y.trace ∧
      Delivery.written (deliveries y.trace) = r.content := by
  have hshows := shows_readResponse follow h.steady
  obtain ⟨g, hg, hrest, htotal, hwritten⟩ :=
    Feed.readResponse_of_reply (f := x.feed) hr (h.bytes.trans hstream)
  have hstart : Delivery.written (deliveries x.feed.outline) = [] := by
    show Delivery.written (deliveries (outline x.trace)) = []
    rw [written_outline, h.deliveries_eq_nil]
    rfl
  rw [hg] at hshows
  cases hy : Client.readResponse follow x with
  | error e y =>
    rw [hy] at hshows
    rcases hshows.of_error with ⟨f, hf, -⟩
    cases hf
  | ok step y =>
    rw [hy] at hshows
    rcases hshows.of_ok with ⟨hok, -⟩
    rcases EStateM.Result.ok.inj hok with ⟨rfl, rfl⟩
    refine ⟨y, rfl, (frugal_readResponse hy).within _ ?_ ((Within.nil _).append h.not_isReceive), ?_⟩
    · -- what was received is the response and what is pending of the bytes behind it
      have hlength : received y.trace + y.peer.stream.length = r.bytes.length + after.length := by
        rw [← List.length_append, ← hstream, ← h.total]
        exact htotal
      have hafter := congrArg List.length hrest
      rw [length_feed_bytes] at hafter
      omega
    · rw [← written_outline]
      exact hwritten.trans (by rw [hstart, List.nil_append])

theorem readResponse_of_reply {after : Bytes} (h : Awaits peer x)
    (hr : r.Final x.window.capacity follow) (hstream : peer.stream = r.bytes ++ after) :
    ∃ y, Client.readResponse follow x = .ok .complete y ∧ Within r.bytes.length y.trace :=
  (h.readResponse_whole hr hstream).imp fun _ hy => ⟨hy.1, hy.2.1⟩

/-- A response that is cut is reported as the stream ends, and the sink has the content that is
there. -/
theorem readResponse_of_cut {k : Nat} (h : Awaits peer x)
    (hr : r.Final x.window.capacity follow) (hk : k < r.bytes.length)
    (hstream : peer.stream = r.bytes.take k) :
    ∃ y, Client.readResponse follow x = .error peer.ending.error y ∧
      Delivery.written (deliveries y.trace) = r.contained k ∧
      Delivery.endMarks (deliveries y.trace) = 0 := by
  have hshows := shows_readResponse follow h.steady
  obtain ⟨g, hg, hwritten, hmarks⟩ :=
    Feed.readResponse_of_cut (f := x.feed) hr hk (h.bytes.trans hstream)
  have hstart : Delivery.written (deliveries x.feed.outline) = [] ∧
      Delivery.endMarks (deliveries x.feed.outline) = 0 := by
    show Delivery.written (deliveries (outline x.trace)) = [] ∧
      Delivery.endMarks (deliveries (outline x.trace)) = 0
    rw [written_outline, endMarks_outline, h.deliveries_eq_nil]
    exact ⟨rfl, rfl⟩
  rw [hg] at hshows
  cases hy : Client.readResponse follow x with
  | ok step y =>
    rw [hy] at hshows
    cases hshows.of_ok.1
  | error e y =>
    rw [hy] at hshows
    rcases hshows.of_error with ⟨f, hf, hrecord⟩
    rcases EStateM.Result.error.inj hf with ⟨rfl, rfl⟩
    have houtline : outline y.trace = g.outline := congrArg Record.outline hrecord
    refine ⟨y, by rw [h.ending], ?_, ?_⟩
    · rw [← written_outline, houtline, hwritten, hstart.1, List.nil_append]
    · rw [← endMarks_outline, houtline, hmarks, hstart.2]

end Awaits

/-- A conversation that ends at a location leaves the sink alone and the buffer as large as it
was. -/
theorem converse_of_redirect {head : RequestHead} {follow : Bool} {x y : Exchange}
    {location : String} (h : Client.converse head follow x = .ok (.redirect location) y) :
    deliveries y.trace = deliveries x.trace ∧ y.window.capacity = x.window.capacity := by
  rw [converse_eq] at h
  rcases ok_of_andThen h with ⟨u, z, hz, hresponse⟩
  have hsent : Sent x z := Outcome.exchange_of_ok hz ▸ sent_sendRequest head x
  rcases readResponse_of_redirect hresponse with ⟨hadds, hcapacity⟩
  exact ⟨hadds.deliveries_eq.trans hsent.deliveries_eq, hcapacity.trans hsent.capacity⟩

end Exchange

namespace Visit

variable {v w : Visit} {method : Method} {timeout : Nat}

/-- At this visit the client gets a connection to this peer, which takes the whole request. -/
def Answered (method : Method) (timeout : Nat) (peer : Peer) (v : Visit) : Prop :=
  ∃ url later, Url.parse v.address = .ok url ∧ url.isHttp = true ∧
    v.client.network = some peer :: later ∧
    ∃ x, Exchange.sendRequest (v.client.requestHead method url (v.source.map Source.reset))
      (v.client.startExchange peer (v.source.map Source.reset) timeout) = .ok () x

/-- A peer that takes the request as a whole gets as far as its response. -/
theorem answered_of_open {url : Url} {peer : Peer} {later : List (Option Peer)}
    (hurl : Url.parse v.address = .ok url) (hhttp : url.isHttp = true)
    (hnetwork : v.client.network = some peer :: later) (hpeer : peer.Open) :
    v.Answered method timeout peer := by
  obtain ⟨x, hx, -⟩ := Exchange.taken_sendRequest
    (v.client.requestHead method url (v.source.map Source.reset))
    (x := v.client.startExchange peer (v.source.map Source.reset) timeout) hpeer
  exact ⟨url, later, hurl, hhttp, hnetwork, x, hx⟩

/-- An attempt whose request is taken is the reading of a response, between the connection and its
close. -/
theorem attempt_of_answered {peer : Peer} (h : v.Answered method timeout peer)
    (hpeer : peer.Steady) :
    ∃ x connect, Exchange.Awaits peer x ∧ x.window.capacity = v.client.window.capacity ∧
      (∃ host port, connect = Event.connect host port true) ∧
      (v.attempt method timeout).result = (Client.readResponse v.follows x).result ∧
      (v.attempt method timeout).events
        = connect :: ((Client.readResponse v.follows x).exchange.trace ++ [.close]) := by
  rcases h with ⟨url, later, hurl, hhttp, hnetwork, y, hy⟩
  have hsent : Exchange.Sent
      (v.client.startExchange peer (v.source.map Source.reset) timeout) y :=
    Exchange.Outcome.exchange_of_ok hy ▸ Exchange.sent_sendRequest _ _
  have hconverse : Client.converse (v.client.requestHead method url (v.source.map Source.reset))
      v.follows (v.client.startExchange peer (v.source.map Source.reset) timeout)
        = Client.readResponse v.follows { y with window := y.window.clear } := by
    rw [Exchange.converse_eq, hy]
    rfl
  have hstart : Client.startExchange { v.client with network := later } peer
      (v.source.map Source.reset) timeout
        = v.client.startExchange peer (v.source.map Source.reset) timeout := rfl
  rw [attempt, Client.attempt_of_connection hurl hhttp hnetwork, Client.exchangeWith_eq, hstart,
    hconverse]
  exact ⟨_, _, Exchange.awaits_of_sent hsent hpeer rfl, hsent.capacity, ⟨_, _, rfl⟩, rfl, rfl⟩

/-- An attempt that names a location to follow leaves the sink alone and the buffer as large as it
was. -/
theorem attempt_of_redirect {location : String}
    (h : (v.attempt method timeout).result = .ok (.redirect location)) :
    deliveries (v.attempt method timeout).events = [] ∧
      (v.attempt method timeout).client.window.capacity = v.client.window.capacity := by
  obtain ⟨url, peer, later, hurl, hhttp, hnetwork⟩ := Client.connection_of_attempt h
  rw [attempt, Client.attempt_of_connection hurl hhttp hnetwork, Client.exchangeWith_eq] at h ⊢
  generalize hx : Client.startExchange _ peer _ timeout = x at h ⊢
  cases hy : Client.converse _ v.follows x with
  | error e y =>
    rw [hy] at h
    cases h
  | ok step y =>
    rw [hy] at h
    obtain rfl : step = .redirect location := Except.ok.inj h
    obtain ⟨hdeliveries, hcapacity⟩ := Exchange.converse_of_redirect hy
    rw [← hx] at hdeliveries hcapacity
    have hquiet : deliveries y.trace = [] := hdeliveries
    refine ⟨?_, hcapacity⟩
    show deliveries ([.connect url.host url.port true] ++ (y.trace ++ [.close])) = []
    rw [deliveries_append, deliveries_append, hquiet]
    rfl

/-- Responses that are followed tell the sink nothing, so what it has is from the last one. -/
theorem deliveries_of_hops {events : List Event} (h : Hops method timeout v events w) :
    deliveries events = [] := by
  induction h with
  | here v => rfl
  | hop left followed rest ih =>
    rw [deliveries_append, (attempt_of_redirect followed).1, ih]
    rfl

theorem capacity_of_hops {events : List Event} (h : Hops method timeout v events w) :
    w.client.window.capacity = v.client.window.capacity := by
  induction h with
  | here v => rfl
  | hop left followed rest ih => exact ih.trans (attempt_of_redirect followed).2

/-- A transaction that gets to a last attempt is that attempt, behind the others. -/
theorem execute_of_hops {c : Client} {address : String} {source : Option Source}
    {events : List Event} (h : Hops method timeout (c.firstVisit address source) events v) :
    (c.execute method address source timeout).result = (v.transaction method timeout).result ∧
      (c.execute method address source timeout).events
        = .deliver .reset :: events ++ (v.transaction method timeout).events := by
  rw [Client.execute_eq, transaction_of_hops h]
  exact ⟨rfl, rfl⟩

end Visit

/-- The response that ends a transaction is consumed exactly. If it comes whole, whatever follows
it, the transaction succeeds, and no receive of the attempt waits for a byte behind it. If the peer
closes in front of its last byte, the transaction fails as closed, and the sink has the content that
came and no end of it. -/
theorem Client.execute_of_final_reply {c : Client} {method : Method} {address : String}
    {source : Option Source} {timeout : Nat} {events : List Event} {v : Visit} {peer : Peer}
    {r : Reply} (hops : Visit.Hops method timeout (c.firstVisit address source) events v)
    (hanswered : v.Answered method timeout peer) (hpeer : peer.Steady)
    (hr : r.Final c.window.capacity v.follows) :
    (∀ after, peer.stream = r.bytes ++ after →
      (c.execute method address source timeout).result = .ok () ∧
      (c.execute method address source timeout).events
        = .deliver .reset :: events ++ (v.attempt method timeout).events ∧
      Within r.bytes.length (v.attempt method timeout).events) ∧
    (∀ k, k < r.bytes.length → peer.stream = r.bytes.take k → peer.ending = .closed →
      (c.execute method address source timeout).result = .error .closed ∧
      Delivery.written (c.execute method address source timeout).deliveries = r.contained k ∧
      Delivery.endMarks (c.execute method address source timeout).deliveries = 0) := by
  obtain ⟨x, connect, hawaits, hcapacity, ⟨host, port, rfl⟩, hresult, hevents⟩ :=
    Visit.attempt_of_answered hanswered hpeer
  have hwindow : x.window.capacity = c.window.capacity :=
    hcapacity.trans (Visit.capacity_of_hops hops)
  rw [← hwindow] at hr
  obtain ⟨hexecute, htrace⟩ := Visit.execute_of_hops hops
  constructor
  · intro after hstream
    obtain ⟨y, hy, hwithin⟩ := hawaits.readResponse_of_reply hr hstream
    rw [hy] at hresult hevents
    obtain ⟨hok, hlast⟩ := Visit.transaction_of_complete hresult
    refine ⟨hexecute.trans hok, by rw [htrace, hlast], ?_⟩
    rw [hevents]
    exact (hwithin.append (by simp [Event.IsReceive])).cons (by simp [Event.IsReceive])
  · intro k hk hstream hending
    obtain ⟨y, hy, hwritten, hmarks⟩ := hawaits.readResponse_of_cut hr hk hstream
    rw [hending] at hy
    rw [hy] at hresult hevents
    obtain ⟨herror, hlast⟩ := Visit.transaction_of_error hresult
    have hcalls : (c.execute method address source timeout).deliveries
        = .reset :: deliveries y.trace := by
      show deliveries (c.execute method address source timeout).events = _
      have hattempt : deliveries (.connect host port true :: (y.trace ++ [.close]))
          = deliveries y.trace := by
        show deliveries (y.trace ++ [.close]) = _
        rw [deliveries_append]
        exact List.append_nil _
      rw [htrace, hlast, hevents, deliveries_append, ← hattempt]
      exact congrArg (.reset :: · ++ _) (Visit.deliveries_of_hops hops)
    rw [hcalls]
    exact ⟨hexecute.trans herror, hwritten, hmarks⟩

/-- A reply in two pieces whose body is one byte too short: what there is of it reaches the sink,
the end of the body does not, and the transaction fails as closed. -/
theorem Client.execute_of_reply_cut_in_body :
    let c := { Client.new 64 with
      network := [some (.sending [Utf8.ofString "HTTP/1.1 200 OK\r\nCont",
        Utf8.ofString "ent-Length: 2\r\n\r\nh"])] }
    (c.execute .get "http://a/" none 1000).result = .error .closed ∧
      Delivery.written (c.execute .get "http://a/" none 1000).deliveries = Utf8.ofString "h" ∧
      Delivery.endMarks (c.execute .get "http://a/" none 1000).deliveries = 0 := by
  intro c
  have hurl : Url.parse "http://a/" = .ok ⟨"http", "a", 80, "/"⟩ := rfl
  have hstatus : StatusLine.parse (Utf8.ofString "HTTP/1.1 200 OK") = .ok 200 := by
    rw [StatusLine.parse, Utf8.ofString, Utf8.decode?_encode]
    rfl
  have hblock : [Utf8.ofString "Content-Length: 2"].foldlM HeaderBlock.addLine {}
      = .ok { contentLength := some 2 } := by
    rw [List.foldlM_cons, HeaderBlock.addLine, HeaderLine.read?, Utf8.ofString, Utf8.decode?_encode]
    rfl
  have hr : Reply.Final 64 false ⟨Utf8.ofString "HTTP/1.1 200 OK",
      [Utf8.ofString "Content-Length: 2"], .plain (Utf8.ofString "hi")⟩ :=
    { statusFits := Window.holdsLine_of_not_mem (by decide) (by decide)
      status := ⟨200, hstatus, by decide⟩
      headersFit := List.forall_mem_singleton.2
        ⟨Window.holdsLine_of_not_mem (by decide) (by decide), by decide⟩
      block := ⟨_, hblock, by simp, .plain (Utf8.ofString "hi")⟩ }
  have hanswered : (c.firstVisit "http://a/" none).Answered .get 1000
      (.sending [Utf8.ofString "HTTP/1.1 200 OK\r\nCont",
        Utf8.ofString "ent-Length: 2\r\n\r\nh"]) :=
    Visit.answered_of_open hurl (by decide) rfl ⟨rfl, rfl, rfl⟩
  exact (Client.execute_of_final_reply (.here _) hanswered (Peer.steady_sending (by decide)) hr).2
    39 (by decide) (by decide +kernel) (by decide)

end DeviceHttp
