import DeviceHttp.Proofs.Transfer.Attempts
import DeviceHttp.Proofs.Transfer.Handover
import DeviceHttp.Proofs.Transfer.Heads
import DeviceHttp.Proofs.Transfer.Replay
import DeviceHttp.Proofs.Transfer.Sending

/-!
# What an attempt comes to

Whatever the peer does, an attempt comes to what the bytes say that were received for it:
`Visit.Ended` has a case for each place where a response can end, and says of each of them what the
result is, what the sink was called with and which location the client keeps. An attempt that gets no
response is one that received nothing (`Visit.attempt_ended`).
-/

namespace DeviceHttp

open Window (crlf)

namespace Exchange

/-- An outcome that has the result and leaves the record of an outcome of a feed. -/
inductive Outcome.Matches {α : Type} : Feed.Outcome α → Outcome α → Prop
  | ok (a : α) {g : Feed} {y : Exchange} (record : y.record = g.toRecord) :
    Matches (.ok a g) (.ok a y)
  | error (e : TransferError) {g : Feed} {y : Exchange} (record : y.record = g.toRecord) :
    Matches (.error e g) (.error e y)

/-- What a reader came to is what it comes to on the bytes that it received. -/
theorem Outcome.Replays.matched {α : Type} {x : Exchange} {read : Feed → Feed.Outcome α}
    {o : Outcome α} (h : o.Replays x read) :
    ∃ got ending, heard o.exchange.trace = heard x.trace ++ got ∧
      Matches (read (x.replay got ending)) o := by
  cases h with
  | ok a got brought same =>
    refine ⟨got, .closed, brought, ?_⟩
    have hsame := same [] .closed
    rw [List.append_nil] at hsame
    rw [hsame]
    exact .ok a rfl
  | error e got ending f brought same record =>
    refine ⟨got, ending, brought, ?_⟩
    rw [same]
    exact .error e record

/-- The response that an exchange is about to read is told by these bytes: the reading of them comes
to what the exchange comes to. -/
def ToldBy (follow : Bool) (x : Exchange) (bytes : Bytes) : Prop :=
  ∃ f : Feed, f.toRecord = x.record ∧ f.bytes = bytes ∧
    Outcome.Matches (f.readResponse follow) (Client.readResponse follow x)

/-- The response of a steady peer is told by all that the peer still sends, behind what waits
already. -/
theorem toldBy_feed (follow : Bool) {x : Exchange} (hx : x.peer.Steady) :
    ToldBy follow x x.feed.bytes := by
  refine ⟨x.feed, rfl, rfl, ?_⟩
  have hshows := shows_readResponse follow hx
  generalize Client.readResponse follow x = o at hshows
  generalize x.feed.readResponse follow = r at hshows
  cases hshows with
  | ok a steady => exact .ok a rfl
  | error e record => exact .error e record

/-- An exchange of this client that has done nothing yet but sending. -/
structure Begun (c : Client) (x : Exchange) : Prop where
  pending : x.window.pending = []
  capacity : x.window.capacity = c.window.capacity
  status : x.status = c.status
  location : x.location = c.location
  sends : ∀ e ∈ x.trace, ∃ bytes timeout accepted, e = .send bytes timeout accepted

/-- Behind the request an attempt has received nothing and has called no sink, and the window is
empty. -/
theorem begun_of_sent {c : Client} {peer : Peer} {source : Option Source} {timeout : Nat}
    {y : Exchange} (h : Sent (c.startExchange peer source timeout) y) : Begun c y := by
  obtain ⟨sends, hsends, hkind⟩ := h.trace
  refine ⟨by rw [h.window]; rfl, by rw [h.window]; rfl, h.status, h.location, ?_⟩
  intro e he
  have hmem : e ∈ sends := (hsends.trans (List.nil_append sends)) ▸ he
  obtain ⟨bytes, accepted, rfl⟩ := hkind e hmem
  exact ⟨bytes, timeout, accepted, rfl⟩

namespace Begun

variable {c : Client} {x : Exchange}

/-- What was pending is forgotten in front of the response, but nothing was. -/
theorem clear (h : Begun c x) : Begun c { x with window := x.window.clear } :=
  ⟨rfl, h.capacity, h.status, h.location, h.sends⟩

theorem heard_eq_nil (h : Begun c x) : heard x.trace = [] := by
  apply List.flatMap_eq_nil_iff.2
  intro e he
  obtain ⟨bytes, timeout, accepted, rfl⟩ := h.sends e he
  rfl

theorem deliveries_eq_nil (h : Begun c x) : deliveries x.trace = [] := by
  apply List.filterMap_eq_nil_iff.2
  intro e he
  obtain ⟨bytes, timeout, accepted, rfl⟩ := h.sends e he
  rfl

theorem narrow (h : Begun c x) : Narrow c.window.capacity x := by
  refine ⟨h.capacity, ?_⟩
  intro s hs
  obtain ⟨bytes, timeout, accepted, hsend⟩ := h.sends _ hs
  cases hsend

/-- What a response did is told by what was added to the outline. -/
theorem added {y : Exchange} (h : Begun c x) (hadds : Adds Event.IsReply x y) :
    ∃ new, y.trace = x.trace ++ new ∧ deliveries y.trace = deliveries new ∧
      outline y.trace = outline x.trace ++ outline new := by
  obtain ⟨new, htrace, -⟩ := hadds
  refine ⟨new, htrace, ?_, by rw [htrace, outline_append]⟩
  rw [htrace, deliveries_append, h.deliveries_eq_nil, List.nil_append]

/-- A reader that leaves the outline as it was has called no sink: receives are not in an outline,
and nothing else was done. -/
theorem deliveries_of_outline_eq {y : Exchange} (h : Begun c x)
    (hadds : Adds Event.IsReply x y) (houtline : outline y.trace = outline x.trace) :
    deliveries y.trace = [] := by
  obtain ⟨new, -, hdeliveries, hnew⟩ := h.added hadds
  rw [houtline] at hnew
  rw [hdeliveries]
  exact deliveries_of_outline_eq_nil (List.self_eq_append_right.1 hnew)

/-- The calls of a response whose outline is an announcement, a body and the mark of its end. Where
the body was cut is not known, only that no slice is empty or too wide. -/
theorem handed {y : Exchange} {calls mark : List Delivery} {body : Bytes} (h : Begun c x)
    (hadds : Adds Event.IsReply x y) (hnarrow : Narrow c.window.capacity y)
    (hcalls : ∀ call ∈ calls, call.IsAnnouncement) (hmark : mark = [] ∨ mark = [.write []])
    (houtline : outline y.trace = outline x.trace
      ++ (calls.map Event.deliver ++ (bytewise body ++ mark.map Event.deliver))) :
    ∃ slices : List Bytes, slices.flatten = body ∧ (∀ s ∈ slices, s ≠ []) ∧
      (∀ s ∈ slices, s.length ≤ c.window.capacity) ∧
      deliveries y.trace = calls ++ slices.map .write ++ mark := by
  obtain ⟨new, htrace, hdeliveries, hnew⟩ := h.added hadds
  obtain ⟨slices, hne, hbody, hslices⟩ :=
    handed_of_outline hcalls hmark (List.append_cancel_left (hnew.symm.trans houtline))
  refine ⟨slices, hbody, hne, ?_, hdeliveries.trans hslices⟩
  intro s hs
  have hmem : Delivery.write s ∈ deliveries y.trace := by
    rw [hdeliveries, hslices]
    exact List.mem_append_left _ (List.mem_append_right _ (List.mem_map_of_mem hs))
  obtain ⟨e, he, hcall⟩ := List.mem_filterMap.1 hmem
  obtain rfl : e = .deliver (.write s) := Event.eq_deliver_of_delivery? hcall
  exact hnarrow.slices s he

/-- Whatever the peer does, a response is told by the bytes that were received for it. -/
theorem toldBy_heard (h : Begun c x) (follow : Bool) :
    ToldBy follow x (heard (Outcome.exchange (Client.readResponse follow x)).trace) := by
  obtain ⟨got, ending, hgot, hmatches⟩ := (replays_readResponse follow x).matched
  refine ⟨x.replay got ending, rfl, ?_, hmatches⟩
  rw [hgot, h.heard_eq_nil, List.nil_append]
  show x.window.pending ++ got = got
  rw [h.pending, List.nil_append]

end Begun

/-- A request fails to be sent, or its response is read. -/
theorem converse_cases (head : RequestHead) (follow : Bool) (x : Exchange) :
    ∃ y, Sent x y ∧ ((∃ e, Client.converse head follow x = .error e y) ∨
      Client.converse head follow x
        = Client.readResponse follow { y with window := y.window.clear }) := by
  have hsent := sent_sendRequest head x
  rw [converse_eq]
  cases hy : x.sendRequest head with
  | error e y =>
    rw [hy] at hsent
    exact ⟨y, hsent, .inl ⟨e, rfl⟩⟩
  | ok u y =>
    rw [hy] at hsent
    exact ⟨y, hsent, .inr rfl⟩

end Exchange

namespace Visit

variable {v : Visit} {method : Method} {timeout : Nat}

/-- The size of the window at a visit. -/
def capacity (v : Visit) : Nat :=
  v.client.window.capacity

/-- What an attempt comes to, told by bytes. -/
inductive Ended (v : Visit) (bytes : Bytes) (t : Transaction Client.Step) : Prop
  /-- There is no response, or none that is accepted. -/
  | refused {e : TransferError} (result : t.result = .error e)
    (unopened : ∀ code ls block rest, ¬ Opens v.capacity bytes code ls block rest)
    (calls : t.deliveries = []) (location : t.client.location = v.client.location)
  /-- The headers of the response do not come to an end. -/
  | fault {code : Nat} {ls : List Bytes} {block : HeaderBlock} {rest : Bytes} {e : TransferError}
    (result : t.result = .error e) (opens : Opens v.capacity bytes code ls block rest)
    (stay : v.follows = true → block.location = none) (stuck : block.Stuck v.capacity rest)
    (calls : t.deliveries = [])
    (location : t.client.location = block.location.or v.client.location)
  /-- The response names a location that is followed. -/
  | redirect {location : String} (result : t.result = .ok (.redirect location))
    (followed : v.follows = true) (leads : LeadsTo v.capacity bytes location)
    (calls : t.deliveries = []) (location_eq : t.client.location = some location)
  /-- The response has a body, which is whole or not. -/
  | body {code : Nat} {ls : List Bytes} {block : HeaderBlock} {rest content : Bytes} {whole : Bool}
    {slices : List Bytes}
    (result : t.result = .ok .complete ∧ whole = true ∨ (∃ e, t.result = .error e) ∧ whole = false)
    (opens : Opens v.capacity bytes code ls block (crlf ++ rest))
    (stay : v.follows = true → block.location = none)
    (framed : Content v.capacity rest block.framing content whole)
    (cut : slices.flatten = content) (nonempty : ∀ s ∈ slices, s ≠ [])
    (narrow : ∀ s ∈ slices, s.length ≤ v.capacity)
    (calls : t.deliveries
      = block.announcement ++ slices.map .write ++ block.framing.endMark whole)
    (location : t.client.location = block.location.or v.client.location)

variable {x : Exchange} {bytes : Bytes} {t : Transaction Client.Step}

/-- What is known of a response whose location is followed. -/
theorem Ended.of_followed {location : String} (h : v.Ended bytes t)
    (hresult : t.result = .ok (.redirect location)) :
    v.follows = true ∧ LeadsTo v.capacity bytes location ∧ t.deliveries = [] ∧
      t.client.location = some location := by
  cases h with
  | refused result => cases hresult.symm.trans result
  | fault result => cases hresult.symm.trans result
  | redirect result followed leads calls location_eq =>
    cases hresult.symm.trans result
    exact ⟨followed, leads, calls, location_eq⟩
  | body result =>
    rcases result with ⟨result, -⟩ | ⟨⟨e, result⟩, -⟩ <;> cases hresult.symm.trans result

/-- An attempt with a body comes to its end exactly if the body is whole. -/
theorem complete_iff_whole {whole : Bool}
    (h : t.result = .ok .complete ∧ whole = true ∨ (∃ e, t.result = .error e) ∧ whole = false) :
    t.result = .ok .complete ↔ whole = true := by
  rcases h with ⟨hresult, hwhole⟩ | ⟨⟨e, hresult⟩, hwhole⟩
  · exact iff_of_true hresult hwhole
  · rw [hresult, hwhole]
    exact iff_of_false nofun Bool.false_ne_true

/-- What an exchange leaves of a transaction that is made of it. -/
structure Concludes (o : Exchange.Outcome Client.Step) (t : Transaction Client.Step) : Prop where
  result : t.result = o.result
  heard : heard t.events = DeviceHttp.heard o.exchange.trace
  calls : t.deliveries = deliveries o.exchange.trace
  location : t.client.location = o.exchange.location
  status : t.client.status = o.exchange.status
  capacity : t.client.window.capacity = o.exchange.window.capacity

/-- The case of a response with a body. What the reader did is known by its outline, up to the cuts
of the body; that these are narrow and not empty is known apart from it. -/
theorem ended_of_body {o : Exchange.Outcome Client.Step} {code : Nat} {ls : List Bytes}
    {block : HeaderBlock} {rest content : Bytes} {whole : Bool} (h : Exchange.Begun v.client x)
    (ht : Concludes o t) (hadds : Exchange.Adds Event.IsReply x o.exchange)
    (hnarrow : Exchange.Narrow v.capacity o.exchange)
    (hresult : o.result = .ok .complete ∧ whole = true ∨ (∃ e, o.result = .error e) ∧ whole = false)
    (hopens : Opens v.capacity bytes code ls block (crlf ++ rest))
    (hstay : v.follows = true → block.location = none)
    (hframed : Content v.capacity rest block.framing content whole)
    (houtline : outline o.exchange.trace = outline x.trace
      ++ (block.announcement.map Event.deliver
        ++ (bytewise content ++ (block.framing.endMark whole).map Event.deliver)))
    (hlocation : o.exchange.location = block.location.or v.client.location) : v.Ended bytes t := by
  obtain ⟨slices, hcut, hne, hshort, hcalls⟩ := h.handed hadds hnarrow
    (fun _ => HeaderBlock.isAnnouncement_of_mem) (block.framing.endMark_cases whole) houtline
  exact .body (ht.result ▸ hresult) hopens hstay hframed hcut hne hshort (ht.calls.trans hcalls)
    (ht.location.trans hlocation)

/-- An attempt that reads a response ends as the bytes say that tell what becomes of it. The feed of
these bytes ends in one of a few ways (`Feed.readResponse_ends`), and the attempt in the same. -/
theorem ended_of_response (h : Exchange.Begun v.client x) (htold : x.ToldBy v.follows bytes)
    (ht : Concludes (Client.readResponse v.follows x) t) : v.Ended bytes t := by
  obtain ⟨f, hf, hbytes, hmatches⟩ := htold
  have hadds := Exchange.adds_readResponse v.follows x
  have hnarrow := Exchange.narrow_readResponse v.follows h.narrow
  have hcapacity : f.capacity = v.capacity := (congrArg Record.capacity hf).trans h.capacity
  have hbefore : f.location = v.client.location := (congrArg Record.location hf).trans h.location
  have houtline : f.outline = outline x.trace := congrArg Record.outline hf
  have hquiet {y : Exchange} {r : Record} (hy : Exchange.Adds Event.IsReply x y)
      (hrecord : y.record = r) (hr : r.outline = f.outline) : deliveries y.trace = [] :=
    h.deliveries_of_outline_eq hy ((congrArg Record.outline hrecord).trans (hr.trans houtline))
  have hend := Feed.readResponse_ends v.follows f
  generalize Client.readResponse v.follows x = o at *
  generalize f.readResponse v.follows = p at *
  cases hend with
  | refused status record seen unopened =>
    rw [hcapacity, hbytes] at unopened
    cases hmatches with
    | error e hy =>
      exact .refused ht.result unopened
        (ht.calls.trans (hquiet hadds (hy.trans record) rfl))
        (ht.location.trans ((congrArg Record.location (hy.trans record)).trans hbefore))
  | fault opens stay stuck record =>
    rw [hcapacity] at opens stuck
    rw [hbytes] at opens
    rw [hbefore] at record
    cases hmatches with
    | error e hy =>
      exact .fault ht.result opens stay stuck
        (ht.calls.trans (hquiet hadds (hy.trans record) rfl))
        (ht.location.trans (congrArg Record.location (hy.trans record)))
  | redirect followed leads reports record =>
    rw [hcapacity, hbytes] at leads
    cases hmatches with
    | ok _ hy =>
      exact .redirect ht.result followed leads
        (ht.calls.trans (hquiet hadds (hy.trans record) rfl))
        (ht.location.trans (congrArg Record.location (hy.trans record)))
  | @body code ls block rest g opens stay start =>
    rw [hcapacity, hbytes] at opens
    obtain ⟨content, whole, k, hcontent, hk, hread⟩ := Feed.readBody_content block.framing g
    subst start
    have hframed : Content v.capacity rest block.framing content whole := by
      rw [← hcapacity]
      exact hcontent
    have hlocation : k.location = block.location.or v.client.location := by
      rw [← hbefore]
      exact congrArg Record.location hk
    have hbody : k.outline = outline x.trace ++ (block.announcement.map Event.deliver
        ++ (bytewise content ++ (block.framing.endMark whole).map Event.deliver)) := by
      rw [← houtline, ← outline_announcements fun _ => HeaderBlock.isAnnouncement_of_mem,
        ← Framing.outline_endMark, ← List.append_assoc, ← List.append_assoc]
      exact congrArg Record.outline hk
    rcases hread with ⟨rfl, hread⟩ | ⟨rfl, e, hread⟩
    · rw [hread] at hmatches
      cases hmatches with
      | ok _ hy =>
        exact ended_of_body h ht hadds hnarrow (.inl ⟨rfl, rfl⟩) opens stay hframed
          ((congrArg Record.outline hy).trans hbody) ((congrArg Record.location hy).trans hlocation)
    · rw [hread] at hmatches
      cases hmatches with
      | error _ hy =>
        exact ended_of_body h ht hadds hnarrow (.inr ⟨⟨e, rfl⟩, rfl⟩) opens stay hframed
          ((congrArg Record.outline hy).trans hbody) ((congrArg Record.location hy).trans hlocation)

/-- What a response makes of the status: the code of its status line, if that can be read, and
otherwise what it was set to in front of the attempt. -/
theorem statusAfter_of_response (h : Exchange.Begun v.client x)
    (htold : x.ToldBy v.follows bytes) (ht : Concludes (Client.readResponse v.follows x) t) :
    StatusAfter v.capacity bytes v.client.status t.client.status := by
  obtain ⟨f, hf, hbytes, hmatches⟩ := htold
  have hcapacity : f.capacity = v.capacity := (congrArg Record.capacity hf).trans h.capacity
  have hbefore : f.status = v.client.status := (congrArg Record.status hf).trans h.status
  have hend := Feed.readResponse_ends v.follows f
  rw [ht.status, ← hcapacity, ← hbytes, ← hbefore]
  generalize Client.readResponse v.follows x = o at *
  generalize f.readResponse v.follows = p at *
  have hreported {y : Exchange} {code : Nat} (hreports : Reports f.capacity f.bytes code)
      (hy : y.status = code) : StatusAfter f.capacity f.bytes f.status y.status := by
    rw [hy]
    exact .reported hreports
  cases hend with
  | refused status record seen unopened =>
    cases hmatches with
    | @error e _ y hy =>
      have hstatus : y.status = status := congrArg Record.status (hy.trans record)
      show StatusAfter f.capacity f.bytes f.status y.status
      rw [hstatus]
      exact seen
  | fault opens stay stuck record =>
    cases hmatches with
    | error e hy => exact hreported opens.reports (congrArg Record.status (hy.trans record))
  | redirect followed leads reports record =>
    cases hmatches with
    | ok _ hy => exact hreported reports (congrArg Record.status (hy.trans record))
  | @body code ls block rest g opens stay start =>
    obtain ⟨content, whole, k, -, hk, hread⟩ := Feed.readBody_content block.framing g
    subst start
    have hcode : k.status = code := congrArg Record.status hk
    rcases hread with ⟨-, hread⟩ | ⟨-, e, hread⟩
    · rw [hread] at hmatches
      cases hmatches with
      | ok _ hy => exact hreported opens.reports ((congrArg Record.status hy).trans hcode)
    · rw [hread] at hmatches
      cases hmatches with
      | error _ hy => exact hreported opens.reports ((congrArg Record.status hy).trans hcode)

/-- A response names the location to go to exactly if locations are followed and it leads to this
one. -/
theorem follows_iff_of_response {location : String} (h : Exchange.Begun v.client x)
    (htold : x.ToldBy v.follows bytes) (ht : Concludes (Client.readResponse v.follows x) t) :
    t.result = .ok (.redirect location) ↔
      v.follows = true ∧ LeadsTo v.capacity bytes location := by
  constructor
  · intro hresult
    obtain ⟨hfollows, hleads, -, -⟩ := (ended_of_response h htold ht).of_followed hresult
    exact ⟨hfollows, hleads⟩
  · rintro ⟨hfollows, hleads⟩
    obtain ⟨f, hf, rfl, hmatches⟩ := htold
    have hcapacity : f.capacity = v.capacity := (congrArg Record.capacity hf).trans h.capacity
    rw [← hcapacity] at hleads
    obtain ⟨g, hg⟩ := Feed.readResponse_follows_iff.2 hleads
    rw [ht.result]
    rw [hfollows] at hmatches ⊢
    rw [hg] at hmatches
    generalize Client.readResponse true x = o at *
    cases hmatches with
    | ok _ record => rfl

/-- To open a connection and to close it brings no bytes. -/
theorem heard_connection (url : Url) (events : List Event) :
    heard (.connect url.host url.port true :: (events ++ [.close])) = heard events := by
  show heard (events ++ [.close]) = _
  rw [heard_append]
  exact List.append_nil _

/-- To open a connection and to close it is no business of the sink. -/
theorem deliveries_connection (url : Url) (events : List Event) :
    deliveries (.connect url.host url.port true :: (events ++ [.close])) = deliveries events := by
  show deliveries (events ++ [.close]) = _
  rw [deliveries_append]
  exact List.append_nil _

/-- An attempt that received nothing, and leaves all as it was. -/
structure Silent (v : Visit) (t : Transaction Client.Step) : Prop where
  result : ∃ e, t.result = .error e
  heard : heard t.events = []
  calls : t.deliveries = []
  location : t.client.location = v.client.location
  status : t.client.status = v.client.status
  capacity : t.client.window.capacity = v.capacity

/-- An attempt fails in front of the response, or it is the reading of one on a connection, with the
connection and its close around it. -/
theorem attempt_cases (method : Method) (timeout : Nat) (v : Visit) :
    Silent v (v.attempt method timeout) ∨
      ∃ x, ∃ url : Url, Exchange.Begun v.client x ∧
        (let o := Client.readResponse v.follows x
        v.attempt method timeout = ⟨o.result,
          Client.leave { v.client with network := v.client.network.tail } o.exchange,
          o.exchange.source,
          .connect url.host url.port true :: (o.exchange.trace ++ [.close])⟩) := by
  have hcourse := v.attempt_course method timeout
  generalize v.attempt method timeout = t at *
  cases hcourse with
  | malformed unusable => exact .inl ⟨⟨_, rfl⟩, rfl, rfl, rfl, rfl, rfl⟩
  | refused address http network => exact .inl ⟨⟨_, rfl⟩, rfl, rfl, rfl, rfl, rfl⟩
  | @connected url peer o address http network converse =>
    obtain ⟨y, hsent, hy⟩ :=
      Exchange.converse_cases (v.head method url) v.follows (v.start peer timeout)
    have hbegun : Exchange.Begun v.client y := Exchange.begun_of_sent hsent
    rw [converse] at hy
    rcases hy with ⟨e, rfl⟩ | rfl
    · exact .inl ⟨⟨e, rfl⟩, (heard_connection _ _).trans hbegun.heard_eq_nil,
        (deliveries_connection _ _).trans hbegun.deliveries_eq_nil, hbegun.location, hbegun.status,
        hbegun.capacity⟩
    · exact .inr ⟨_, url, hbegun.clear, rfl⟩

/-- An attempt is silent, because there was no connection or the request failed, or it comes to what
the reader of the response makes of it. -/
theorem attempt_concludes (method : Method) (timeout : Nat) (v : Visit) :
    Silent v (v.attempt method timeout) ∨
      ∃ x, Exchange.Begun v.client x ∧
        Concludes (Client.readResponse v.follows x) (v.attempt method timeout) := by
  rcases v.attempt_cases method timeout with hsilent | ⟨x, url, hbegun, hattempt⟩
  · exact .inl hsilent
  · rw [hattempt]
    exact .inr ⟨x, hbegun, rfl, heard_connection _ _, deliveries_connection _ _, rfl, rfl, rfl⟩

/-- A peer that takes the request and goes on up to the end of its stream is read from, and all that
it sends tells what becomes of its response. -/
theorem attempt_of_open {url : Url} {peer : Peer} (hurl : Url.parse v.address = .ok url)
    (hhttp : url.isHttp = true) (hnetwork : v.client.network.head? = some (some peer))
    (hopen : peer.Open) (hsteady : peer.Steady) :
    ∃ x, Exchange.Begun v.client x ∧ x.ToldBy v.follows peer.stream ∧
      Concludes (Client.readResponse v.follows x) (v.attempt method timeout) := by
  have hcourse := v.attempt_course method timeout
  generalize v.attempt method timeout = t at *
  cases hcourse with
  | malformed unusable => cases hhttp.symm.trans (unusable url hurl)
  | refused address http network => exact absurd hnetwork (network peer)
  | @connected url' peer' o address http network converse =>
    obtain rfl : peer = peer' := Option.some.inj (Option.some.inj (hnetwork.symm.trans network))
    obtain ⟨y, hy, -⟩ := Exchange.taken_sendRequest (v.head method url')
      (x := v.start peer timeout) hopen
    have hsent : Exchange.Sent (v.start peer timeout) y :=
      Exchange.Outcome.exchange_of_ok hy ▸ Exchange.sent_sendRequest _ _
    have hbegun : Exchange.Begun v.client { y with window := y.window.clear } :=
      (Exchange.begun_of_sent hsent).clear
    have htold : Exchange.ToldBy v.follows { y with window := y.window.clear } peer.stream := by
      rw [← show y.peer.stream = peer.stream from hsent.stream]
      exact Exchange.toldBy_feed v.follows (x := { y with window := y.window.clear })
        (hsent.steady hsteady)
    rw [Exchange.converse_eq, hy] at converse
    subst converse
    exact ⟨_, hbegun, htold, rfl, heard_connection _ _, deliveries_connection _ _, rfl, rfl, rfl⟩

theorem Silent.ended (h : Silent v t) : v.Ended [] t := by
  obtain ⟨e, he⟩ := h.result
  exact .refused he (fun _ _ _ _ => not_opens_nil) h.calls h.location

/-- Whatever the peer does, what an attempt comes to is told by the bytes that were received for
it. -/
theorem attempt_ended (method : Method) (timeout : Nat) (v : Visit) :
    v.Ended (heard (v.attempt method timeout).events) (v.attempt method timeout) := by
  rcases v.attempt_concludes method timeout with hsilent | ⟨x, hbegun, hconcludes⟩
  · rw [hsilent.heard]
    exact hsilent.ended
  · rw [hconcludes.heard]
    exact ended_of_response hbegun (hbegun.toldBy_heard v.follows) hconcludes

/-- The status behind an attempt is the one that its response reports. -/
theorem statusAfter_attempt (method : Method) (timeout : Nat) (v : Visit) :
    StatusAfter v.capacity (heard (v.attempt method timeout).events) v.client.status
      (v.attempt method timeout).client.status := by
  rcases v.attempt_concludes method timeout with hsilent | ⟨x, hbegun, hconcludes⟩
  · rw [hsilent.heard, hsilent.status]
    exact .kept fun code => not_reports_nil _ code
  · rw [hconcludes.heard]
    exact statusAfter_of_response hbegun (hbegun.toldBy_heard v.follows) hconcludes

/-- No attempt changes the size of the window. -/
theorem capacity_attempt (method : Method) (timeout : Nat) (v : Visit) :
    (v.attempt method timeout).client.window.capacity = v.capacity := by
  rcases v.attempt_concludes method timeout with hsilent | ⟨x, hbegun, hconcludes⟩
  · exact hsilent.capacity
  · exact hconcludes.capacity.trans (Exchange.narrow_readResponse v.follows hbegun.narrow).window

/-- An attempt names the location to go to exactly if locations are followed and its response leads
to this one. -/
theorem attempt_follows_iff {location : String} :
    (v.attempt method timeout).result = .ok (.redirect location) ↔
      v.follows = true ∧ LeadsTo v.capacity (heard (v.attempt method timeout).events) location := by
  rcases v.attempt_concludes method timeout with hsilent | ⟨x, hbegun, hconcludes⟩
  · obtain ⟨e, he⟩ := hsilent.result
    rw [hsilent.heard, he]
    exact iff_of_false nofun fun h => not_leadsTo_nil _ location h.2
  · rw [hconcludes.heard]
    exact follows_iff_of_response hbegun (hbegun.toldBy_heard v.follows) hconcludes

end Visit

end DeviceHttp
