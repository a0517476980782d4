import DeviceHttp.Form.Sink
import DeviceHttp.Json.Sink
import DeviceHttp.Proofs.Transfer.History
import DeviceHttp.Proofs.Transfer.Sources

/-!
# Transactions do not depend on each other

A client keeps a status, a location and the bytes of its window from one transaction to the next.
The status is set back and the window cleared before either is looked at; the location is never
looked at, only replaced (`Exchange.recalling`). So a client that was used and a new one with the
same settings do the same (`Client.Recalls`), and so do a source that was read in part and a new one,
and a sink that was filled and a new one, because each of them starts with a reset.
-/

namespace DeviceHttp

/-! ## One connection -/

namespace Exchange

/-- The exchange of a client that remembers this location from before. -/
def recalling (old : Option String) (x : Exchange) : Exchange :=
  { x with location := x.location.or old }

/-- A location from before is nothing that sending looks at. -/
theorem unseen_recalling (old : Option String) : Unseen (recalling old) where
  window _ := rfl
  source _ := rfl
  put _ _ := rfl
  send bytes x := by
    unfold send recalling
    dsimp only
    cases (x.peer.send bytes).1 with
    | none => rfl
    | some n =>
      dsimp only
      split <;> rfl

/-- A location from before is nothing that reading looks at: a new one is put in its place, and the
view has it there as well. -/
theorem unread_recalling (old : Option String) : Unread (recalling old) where
  window _ := rfl
  peer _ := rfl
  receive _ _ := rfl
  clear _ := rfl
  consume _ _ := rfl
  deliverAll _ _ := rfl
  status _ _ := rfl
  location location x := by
    unfold recalling
    dsimp only
    rw [Option.or_assoc]

end Exchange

namespace Client

/-! ## The attempts of a transaction -/

/-- A client that remembers this location from before, and the bytes in its window, where the other
one is new. -/
structure Recalls (old : Option String) (c d : Client) : Prop where
  capacity : c.window.capacity = d.window.capacity
  network : c.network = d.network
  authorization : c.authorization = d.authorization
  headers : c.headers = d.headers
  attempts : c.attempts = d.attempts
  status : c.status = d.status
  location : c.location = d.location.or old

end Client

/-- Two transactions that differ at most in what the client of the first one remembers from before,
and in how far their sources were read. -/
structure Transaction.Recalls {α : Type} (old : Option String) (t u : Transaction α) : Prop where
  result : t.result = u.result
  client : t.client.Recalls old u.client
  source : t.source.map Source.reset = u.source.map Source.reset
  events : t.events = u.events

theorem Transaction.Recalls.after {α : Type} {old : Option String} {t u : Transaction α}
    (h : t.Recalls old u) (events : List Event) : (t.after events).Recalls old (u.after events) :=
  ⟨h.result, h.client, h.source, congrArg (events ++ ·) h.events⟩

namespace Client.Recalls

variable {old : Option String} {c d : Client}

theorem requestHead (h : c.Recalls old d) (method : Method) (url : Url) (source : Option Source) :
    c.requestHead method url source = d.requestHead method url source := by
  unfold Client.requestHead
  rw [h.authorization, h.headers]

theorem startExchange (h : c.Recalls old d) (peer : Peer) (source : Option Source)
    (timeout : Nat) :
    c.startExchange peer source timeout = (d.startExchange peer source timeout).recalling old := by
  unfold Client.startExchange Exchange.recalling
  rw [Window.clear_eq_of_capacity_eq h.capacity, h.status, h.location]

theorem leave (h : c.Recalls old d) (x : Exchange) :
    (c.leave (x.recalling old)).Recalls old (d.leave x) :=
  ⟨rfl, h.network, h.authorization, h.headers, h.attempts, rfl, rfl⟩

/-- One exchange of a used client does what that of a new one does, and leaves two clients that
differ in the location from before at most. -/
theorem exchangeWith (h : c.Recalls old d) (peer : Peer) (head : RequestHead)
    (source : Option Source) (follow : Bool) (timeout : Nat) :
    (c.exchangeWith peer head source follow timeout).Recalls old
      (d.exchangeWith peer head source follow timeout) := by
  rw [exchangeWith_eq, exchangeWith_eq, h.startExchange,
    (Exchange.unread_recalling old).converse (Exchange.unseen_recalling old)]
  cases converse head follow (d.startExchange peer source timeout) with
  | ok step x => exact ⟨rfl, h.leave x, rfl, rfl⟩
  | error e x => exact ⟨rfl, h.leave x, rfl, rfl⟩

/-- One attempt of a used client does what that of a new one does. The two sources need only be the
same once they are reset, because that is the first thing an attempt does. -/
theorem attempt (h : c.Recalls old d) (method : Method) (address : String)
    {source source' : Option Source} (hsource : source.map Source.reset = source'.map Source.reset)
    (follow : Bool) (timeout : Nat) :
    (c.attempt method address source follow timeout).Recalls old
      (d.attempt method address source' follow timeout) := by
  unfold Client.attempt
  cases Url.parse address with
  | error e => exact ⟨rfl, h, hsource, rfl⟩
  | ok url =>
    dsimp only
    split
    · rw [h.network]
      cases hd : d.network with
      | nil => exact ⟨rfl, h, hsource, rfl⟩
      | cons first later =>
        have hrest : Recalls old { c with network := later } { d with network := later } :=
          ⟨h.capacity, rfl, h.authorization, h.headers, h.attempts, h.status, h.location⟩
        cases first with
        | none => exact ⟨rfl, hrest, hsource, rfl⟩
        | some peer =>
          dsimp only
          rw [h.requestHead, hsource]
          exact (hrest.exchangeWith peer _ _ follow timeout).after _
    · exact ⟨rfl, h, hsource, rfl⟩

/-- The attempts of the two transactions run in lockstep. Behind the first one the sources are over
the same data, and a reset makes them the same again. -/
theorem follow (h : c.Recalls old d) (method : Method) (timeout redirects : Nat)
    (address : String) {source source' : Option Source}
    (hsource : source.map Source.reset = source'.map Source.reset) :
    (c.follow method timeout redirects address source).Recalls old
      (d.follow method timeout redirects address source') := by
  induction redirects generalizing c d address source source' with
  | zero =>
    obtain ⟨hresult, hclient, hsource, hevents⟩ := h.attempt method address hsource false timeout
    unfold Client.follow
    dsimp only
    rw [hresult]
    split
    · exact ⟨rfl, hclient, hsource, hevents⟩
    · exact ⟨rfl, hclient, hsource, hevents⟩
    · exact ⟨rfl, hclient, hsource, hevents⟩
  | succ redirects ih =>
    obtain ⟨hresult, hclient, hsource, hevents⟩ := h.attempt method address hsource true timeout
    unfold Client.follow
    dsimp only
    rw [hresult]
    split
    · exact ⟨rfl, hclient, hsource, hevents⟩
    · exact ⟨rfl, hclient, hsource, hevents⟩
    · rw [hevents]
      exact (ih hclient _ hsource).after _

end Client.Recalls

/-! ## Sinks -/

namespace TextSink

/-- Two sinks that have kept the same of a response, in buffers of one size. -/
structure Alike (s s' : TextSink) : Prop where
  fits : s.length ≤ s.buffer.length
  size : s.buffer.length = s'.buffer.length
  length : s.length = s'.length
  bytes : s.bytes = s'.bytes
  contentType : s.contentType = s'.contentType

/-- A write adds what it keeps. -/
theorem bytes_write (slice : Bytes) {s : TextSink} (h : s.length ≤ s.buffer.length) :
    (s.write slice).2.bytes = s.bytes ++ slice.take (s.buffer.length - s.length) := by
  have hlength : s.length + (slice.take (s.buffer.length - s.length)).length
      = (s.bytes ++ slice.take (s.buffer.length - s.length)).length := by
    rw [List.length_append, bytes, List.length_take_of_le h]
  unfold bytes write
  dsimp only
  rw [hlength]
  exact List.take_left

/-- Two sinks that differ in what a reset forgets keep the same bytes of a slice. -/
theorem Alike.write {s s' : TextSink} (h : s.Alike s') (slice : Bytes) :
    (s.write slice).2.Alike (s'.write slice).2 := by
  have hfits : s'.length ≤ s'.buffer.length := by
    rw [← h.length, ← h.size]
    exact h.fits
  have hlength : (s.write slice).2.length = (s'.write slice).2.length := by
    unfold TextSink.write
    rw [h.length, h.size]
  refine ⟨?_, ?_, hlength, ?_, h.contentType⟩
  · have := h.fits
    rw [length_buffer_write slice s h.fits]
    simp only [TextSink.write, List.length_take]
    omega
  · rw [length_buffer_write slice s h.fits, length_buffer_write slice s' hfits, h.size]
  · rw [bytes_write slice h.fits, bytes_write slice hfits, h.bytes, h.length, h.size]

/-- Two sinks that differ in what a reset forgets go on to do so, whatever they are called with. -/
theorem Alike.accept {s s' : TextSink} (h : s.Alike s') (call : Delivery) :
    (Sink.accept s call).Alike (Sink.accept s' call) := by
  cases call with
  | reset => exact ⟨Nat.zero_le _, h.size, rfl, rfl, rfl⟩
  | setLength n => exact h
  | setChunked on => exact h
  | setContentType value => exact ⟨h.fits, h.size, h.length, h.bytes, rfl⟩
  | write bytes => exact h.write bytes

theorem Alike.acceptAll {s s' : TextSink} (h : s.Alike s') (calls : List Delivery) :
    (Sink.acceptAll s calls).Alike (Sink.acceptAll s' calls) := by
  induction calls generalizing s s' with
  | nil => exact h
  | cons call calls ih => exact ih (h.accept call)

/-- A sink that is reset is like a new one with a buffer of the same size. -/
theorem alike_reset (s : TextSink) {buffer : Bytes} (h : buffer.length = s.buffer.length) :
    (Sink.reset s).Alike (Sink.reset { buffer : TextSink }) :=
  ⟨Nat.zero_le _, h.symm, rfl, rfl, rfl⟩

end TextSink

namespace Client

/-- A new client with the settings of this one, and the connections that it will get. -/
def renewed (c : Client) : Client :=
  { new c.window.capacity c.window.capacity_pos with
    network := c.network
    authorization := c.authorization
    headers := c.headers
    attempts := c.attempts }

/-- The calls of a transaction start with a reset. -/
theorem deliveries_execute (method : Method) (address : String) (source : Option Source)
    (timeout : Nat) (c : Client) :
    ∃ calls, (c.execute method address source timeout).deliveries = .reset :: calls :=
  ⟨_, rfl⟩

/-- Whatever was done with a client before, and however far its source was read and its sink filled,
a transaction is the one of a new client with the same settings, a new source over the same data and
a new sink of the same size. Of what the client remembered only the location is still there, if the
transaction stores no other. The source that it leaves is over the same data again. -/
theorem execute_renewed (before : Client) (calls : List Call) (method : Method)
    (address : String) (timeout : Nat) {source fresh : Option Source}
    (hsource : Option.Rel Source.SameData source fresh) :
    let c := (before.callAll calls).1
    let t := c.execute method address source timeout
    let u := c.renewed.execute method address fresh timeout
    t.result = u.result ∧ t.events = u.events ∧ t.client.status = u.client.status ∧
      t.client.location = u.client.location.or c.location ∧
      Option.Rel Source.SameData fresh t.source ∧
      (∀ (s : TextSink) (buffer : Bytes), buffer.length = s.buffer.length →
        (t.into s).Alike (u.into { buffer : TextSink })) ∧
      (∀ s : FormSink, t.into s = u.into { capacity := s.capacity : FormSink }) ∧
      (∀ s : JsonSink, t.into s = u.into { capacity := s.capacity : JsonSink }) := by
  intro c t u
  have hclient : Recalls c.location { c with status := 0 } { c.renewed with status := 0 } :=
    ⟨rfl, rfl, rfl, rfl, rfl, rfl, rfl⟩
  have h : t.Recalls c.location u :=
    (hclient.follow method timeout (c.attempts - 1) address
      (Source.SameData.map_reset_eq hsource)).after [.deliver .reset]
  have hcalls : t.deliveries = u.deliveries := congrArg DeviceHttp.deliveries h.events
  -- each sink is reset by the first call, so only what the reset keeps of it makes a difference
  obtain ⟨calls, hu⟩ := c.renewed.deliveries_execute method address fresh timeout
  have ht : t.deliveries = .reset :: calls := hcalls.trans hu
  have hkept : Option.Rel Source.SameData fresh t.source := by
    obtain ⟨vs, htrail⟩ := Visit.exists_trail method timeout (c.firstVisit address source)
    exact htrail.holds_transaction (Source.SameData.rel_symm hsource)
  refine ⟨h.result, h.events, h.client.status, h.client.location, hkept, ?_, ?_, ?_⟩
  · intro s buffer hlength
    unfold Transaction.into
    rw [hu, ht]
    exact (s.alike_reset hlength).acceptAll calls
  · intro s
    unfold Transaction.into
    rw [hu, ht]
    rfl
  · intro s
    unfold Transaction.into
    rw [hu, ht]
    rfl

/-- A response before left two bytes in the window, and its status; of the source only the last byte
is unread. The next transaction sends the source whole all the same, and is rejected by its own
response, as it is with a new client and a new source. -/
theorem execute_renewed_of_half_read :
    let calls : List Call := [
      .addConnections [
        some { arrivals :=
          [.data (Utf8.ofString "HTTP/1.1 200 OK\r\nContent-Length: 1\r\n\r\nabc")] },
        some { arrivals := [.data (Utf8.ofString "HTTP/1.1 404\r\n")] }],
      .execute .put "http://a/" (some (.fixed (.ofBytes [104, 105]))) 1000]
    let c := ((new 64).callAll calls).1
    let t := c.execute .post "http://a/" (some (.fixed ⟨"text/plain", [104, 105], [105]⟩)) 1000
    let u := c.renewed.execute .post "http://a/" (some (.fixed (.ofBytes [104, 105]))) 1000
    (c.window.pending = Utf8.ofString "bc" ∧ c.status = 200) ∧
      (.send [104, 105] 1000 (some 2) ∈ t.events ∧ t.client.status = 404) ∧
      t.result = u.result ∧ t.events = u.events ∧ t.client.status = u.client.status := by
  intro calls c t u
  have hsource : Option.Rel Source.SameData
      (some (.fixed ⟨"text/plain", [104, 105], [105]⟩)) (some (.fixed (.ofBytes [104, 105]))) :=
    .some (.fixed _ _ _ _)
  obtain ⟨hresult, hevents, hstatus, -⟩ :=
    execute_renewed (new 64) calls .post "http://a/" 1000 hsource
  exact ⟨by decide +kernel, by decide +kernel, hresult, hevents, hstatus⟩

end Client

end DeviceHttp
