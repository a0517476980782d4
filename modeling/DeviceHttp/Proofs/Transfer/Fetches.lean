import DeviceHttp.Proofs.Transfer.Completion
import DeviceHttp.Proofs.Transfer.Independence
import DeviceHttp.Proofs.Transfer.Redirects
import DeviceHttp.Proofs.Transfer.SinkProtocol

/-!
# What a transaction fetches

A transaction that succeeds ended on one response, which came whole, and its sink was handed the
content of that (`Client.endsOn_of_ok`). Where the next connection brings such a response, the
transaction is one attempt and succeeds (`Client.execute_of_answered`). A text sink has the front of
what it was handed, as far as it has room.
-/

namespace DeviceHttp

open Window (crlf)

/-! ## The calls that hand a response over -/

namespace Delivery

/-- The announcement of a body: its length, or that it comes in chunks, and its type if that is
known. -/
def announced (total : Option Nat) (type : Option String) : List Delivery :=
  (match total with | some n => .setLength n | none => .setChunked true)
    :: (type.map .setContentType).toList

/-- The calls that hand a response over are an announcement, slices, and the end of a body in chunks
if it came to that. -/
theorem Handover.parts {capacity : Nat} {succeeds : Prop} {calls : List Delivery}
    (h : Handover capacity succeeds calls) :
    ∃ total type mark, ∃ slices : List Bytes,
      calls = announced total type ++ slices.map .write ++ mark ∧
      (mark = [] ∨ mark = [.write []]) ∧ (∀ s ∈ slices, s ≠ []) ∧
      ∀ n, total = some n → slices.flatten.length ≤ n := by
  cases h with
  | sized n type slices nonempty _ within _ =>
    exact ⟨some n, type, [], slices, (List.append_nil _).symm, .inl rfl, nonempty,
      fun m hm => Option.some.inj hm ▸ within⟩
  | chunked type slices mark nonempty _ ended =>
    exact ⟨none, type, mark, slices, rfl, (ended.imp And.left And.left).symm, nonempty, nofun⟩

theorem reset_not_mem_announced (total : Option Nat) (type : Option String) :
    .reset ∉ announced total type := by
  cases total <;> cases type <;> simp [announced]

theorem written_announced (total : Option Nat) (type : Option String) :
    written (announced total type) = [] := by
  cases total <;> cases type <;> rfl

theorem written_slices (slices : List Bytes) : written (slices.map .write) = slices.flatten := by
  induction slices with
  | nil => rfl
  | cons slice slices ih => exact congrArg (slice ++ ·) ih

theorem written_of_parts {total : Option Nat} {type : Option String} {slices : List Bytes}
    {mark : List Delivery} (hmark : mark = [] ∨ mark = [.write []]) :
    written (announced total type ++ slices.map .write ++ mark) = slices.flatten := by
  have hend : written mark = [] := by
    rcases hmark with rfl | rfl <;> rfl
  rw [written_append, written_append, written_announced, written_slices, hend, List.append_nil,
    List.nil_append]

/-- A sink is reset in front of a response and not within one. -/
theorem Handover.reset_not_mem {capacity : Nat} {succeeds : Prop} {calls : List Delivery}
    (h : Handover capacity succeeds calls) : .reset ∉ calls := by
  obtain ⟨total, type, mark, slices, rfl, hmark, -, -⟩ := h.parts
  simp only [List.mem_append, not_or]
  refine ⟨⟨reset_not_mem_announced total type, by simp⟩, ?_⟩
  rcases hmark with rfl | rfl <;> simp

end Delivery

/-! ## The end of a transaction -/

/-- The transaction ends on this response: it came whole to the last attempt, and is not
followed. -/
def Client.EndsOn (c : Client) (method : Method) (address : String) (source : Option Source)
    (timeout : Nat) (r : Reply) : Prop :=
  ∃ before last after,
    Visit.Trail method timeout (c.firstVisit address source) (before ++ [last]) ∧
    (c.execute method address source timeout).events
      = .deliver .reset :: Visit.eventsOf method timeout (before ++ [last]) ∧
    heard (last.attempt method timeout).events = r.bytes ++ after ∧
    r.Final c.window.capacity last.follows

/-- A response whose headers and body were read to their ends. -/
theorem Opens.exists_reply {capacity code : Nat} {bytes rest content : Bytes} {ls : List Bytes}
    {block : HeaderBlock} {follow : Bool} (h : Opens capacity bytes code ls block (crlf ++ rest))
    (hstay : follow = true → block.location = none)
    (hcontent : Content capacity rest block.framing content true) :
    ∃ r after, bytes = Reply.bytes r ++ after ∧ r.Final capacity follow ∧ r.content = content := by
  obtain ⟨line, hline, hcode, hbytes⟩ := h.status
  have hfinal (body : Reply.Body) (hbody : body.Framed capacity block.framing) :
      Reply.Final capacity follow ⟨line, ls, body⟩ :=
    ⟨hline, ⟨code, hcode, h.accepted⟩, h.reads.lines, block, h.reads.fold, hstay, hbody⟩
  have hsent (body : Reply.Body) {after : Bytes} (hrest : rest = body.bytes ++ after) :
      bytes = Reply.bytes ⟨line, ls, body⟩ ++ after := by
    rw [hbytes, hrest, Reply.bytes, Reply.head, Reply.headerBlock]
    simp only [List.append_assoc]
  generalize block.framing = framing at hcontent hfinal
  generalize hwhole : true = whole at hcontent
  cases hcontent with
  | length n =>
    have hn : (rest.take n).length = n := List.length_take_of_le (of_decide_eq_true hwhole.symm)
    have hbody : Reply.Body.Framed capacity (.length n) (.plain (rest.take n)) := by
      have hplain : Reply.Body.Framed capacity _ _ := .plain (rest.take n)
      rwa [hn] at hplain
    exact ⟨_, rest.drop n, hsent (.plain (rest.take n)) (List.take_append_drop n rest).symm,
      hfinal _ hbody, rfl⟩
  | @chunks cs after accepts =>
    obtain ⟨last, hlast, hrest⟩ := accepts.spelled
    exact ⟨_, after, hsent (.chunks cs last) hrest, hfinal _ (.chunks accepts.valid hlast), rfl⟩
  | cut rejects => cases hwhole

namespace Client

variable {c : Client} {method : Method} {address : String} {source : Option Source} {timeout : Nat}

/-- A transaction is its last attempt, behind others that say nothing to the sink, because they are
left for a location in the middle of their headers. -/
theorem exists_last (c : Client) (method : Method) (address : String) (source : Option Source)
    (timeout : Nat) :
    ∃ before last, Visit.Trail method timeout (c.firstVisit address source) (before ++ [last]) ∧
      (c.execute method address source timeout).events
        = .deliver .reset :: Visit.eventsOf method timeout (before ++ [last]) ∧
      (∀ location, (last.attempt method timeout).result ≠ .ok (.redirect location)) ∧
      last.capacity = c.window.capacity ∧
      (c.execute method address source timeout).result
        = (last.attempt method timeout).result.map (fun _ => ()) ∧
      (c.execute method address source timeout).deliveries
        = .reset :: (last.attempt method timeout).deliveries := by
  obtain ⟨vs, htrail⟩ := Visit.exists_trail method timeout (c.firstVisit address source)
  obtain ⟨before, last, rfl, hcapacity, hends, hquiet, htransaction⟩ := htrail.concludes
  have hevents : (c.execute method address source timeout).events
      = .deliver .reset :: Visit.eventsOf method timeout (before ++ [last]) :=
    congrArg (Event.deliver .reset :: Transaction.events ·) htransaction
  refine ⟨before, last, htrail, hevents, hends, hcapacity,
    congrArg Transaction.result htransaction, ?_⟩
  have hlast : Visit.eventsOf method timeout (before ++ [last])
      = Visit.eventsOf method timeout before ++ (last.attempt method timeout).events := by
    simp [Visit.eventsOf]
  rw [Transaction.deliveries, hevents, hlast]
  change Delivery.reset :: deliveries (Visit.eventsOf method timeout before ++ _) = _
  rw [deliveries_append, hquiet]
  rfl

/-- The sink is reset and then told nothing, in which case the transaction fails, or it is handed a
response. -/
theorem handover_execute (c : Client) (method : Method) (address : String)
    (source : Option Source) (timeout : Nat) :
    ∃ calls, (c.execute method address source timeout).deliveries = .reset :: calls ∧
      (calls = [] ∧ (∃ e, (c.execute method address source timeout).result = .error e) ∨
        Delivery.Handover c.window.capacity
          ((c.execute method address source timeout).result = .ok ()) calls) := by
  obtain ⟨before, last, -, -, hends, hcapacity, hresult, hcalls⟩ :=
    c.exists_last method address source timeout
  have hcapacity : last.capacity = c.window.capacity := hcapacity
  refine ⟨_, hcalls, ?_⟩
  rw [← hcapacity, hresult, Visit.succeeds_iff hends]
  rcases Visit.hands_over hends with ⟨hnone, e, herror⟩ | ⟨hhanded, -⟩
  · exact .inl ⟨hnone, e, by rw [herror]; rfl⟩
  · exact .inr hhanded

/-- A transaction that succeeds hands over the content of the response that it ends on, which came
whole. -/
theorem endsOn_of_ok (h : (c.execute method address source timeout).result = .ok ()) :
    ∃ r, c.EndsOn method address source timeout r ∧
      Delivery.written (c.execute method address source timeout).deliveries = r.content := by
  obtain ⟨before, last, htrail, hevents, hends, hcapacity, hresult, hcalls⟩ :=
    c.exists_last method address source timeout
  have hcomplete : (last.attempt method timeout).result = .ok .complete :=
    (Visit.succeeds_iff hends).1 (hresult.symm.trans h)
  cases last.attempt_ended method timeout with
  | refused result => cases hcomplete.symm.trans result
  | fault result => cases hcomplete.symm.trans result
  | redirect result => cases hcomplete.symm.trans result
  | @body code ls block rest content whole slices result opens stay framed cut nonempty narrow
      calls =>
    rw [(Visit.complete_iff_whole result).1 hcomplete] at framed calls
    obtain ⟨r, after, hheard, hfinal, hcontent⟩ := opens.exists_reply stay framed
    refine ⟨r, ⟨before, last, after, htrail, hevents, hheard, hcapacity ▸ hfinal⟩, ?_⟩
    rw [hcalls, calls, hcontent, ← cut]
    exact Delivery.written_of_handed block block.framing true

/-- Where the next connection is answered with a response that ends a transaction, one attempt is
made, and the content of the response is handed over. -/
theorem execute_of_answered {peer : Peer} {r : Reply} {after : Bytes}
    (hanswered : (c.firstVisit address source).Answered method timeout peer) (hpeer : peer.Steady)
    (hr : r.Final c.window.capacity (c.firstVisit address source).follows)
    (hstream : peer.stream = r.bytes ++ after) :
    (c.execute method address source timeout).result = .ok () ∧
      Delivery.written (c.execute method address source timeout).deliveries = r.content ∧
      (connects (c.execute method address source timeout).events).length = 1 := by
  obtain ⟨x, connect, hawaits, hcapacity, ⟨host, port, rfl⟩, hresult, hevents⟩ :=
    Visit.attempt_of_answered hanswered hpeer
  have hcapacity : x.window.capacity = c.window.capacity := hcapacity
  rw [← hcapacity] at hr
  obtain ⟨y, hy, -, hwritten⟩ := hawaits.readResponse_whole hr hstream
  rw [hy] at hresult hevents
  obtain ⟨hok, hlast⟩ := Visit.transaction_of_complete hresult
  have hops : Visit.Hops method timeout (c.firstVisit address source) [] _ := .here _
  obtain ⟨hexecute, htrace⟩ := Visit.execute_of_hops hops
  rw [hlast] at htrace
  have hfirst := (c.firstVisit address source).length_connects_attempt_le method timeout
  have hcalls : (c.execute method address source timeout).deliveries
      = .reset :: deliveries y.trace := by
    rw [Transaction.deliveries, htrace, hevents]
    change Delivery.reset :: deliveries (y.trace ++ [.close]) = _
    rw [deliveries_append]
    exact congrArg (Delivery.reset :: ·) (List.append_nil _)
  refine ⟨hexecute.trans hok, by rw [hcalls]; exact hwritten, ?_⟩
  rw [htrace]
  rw [hevents] at hfirst ⊢
  exact Nat.le_antisymm hfirst (Nat.succ_le_succ (Nat.zero_le _))

end Client

/-! ## Text -/

/-- A buffer with room for `room` bytes has the front of `body`, as far as it has room. -/
structure TextSink.Holds (room : Nat) (body : Bytes) (s : TextSink) : Prop where
  size : s.buffer.length = room
  fits : s.length ≤ room
  bytes : s.bytes = body.take room

namespace TextSink.Holds

variable {room : Nat} {body : Bytes} {s : TextSink}

theorem fits_buffer (h : Holds room body s) : s.length ≤ s.buffer.length :=
  h.size ▸ h.fits

theorem length_eq (h : Holds room body s) : s.length = min room body.length := by
  have hlength := congrArg List.length h.bytes
  rwa [TextSink.bytes, List.length_take_of_le h.fits_buffer, List.length_take] at hlength

theorem write (h : Holds room body s) (slice : Bytes) :
    Holds room (body ++ slice) (s.write slice).2 := by
  refine ⟨(length_buffer_write slice s h.fits_buffer).trans h.size, ?_, ?_⟩
  · simp only [TextSink.write, List.length_take, h.size]
    have := h.fits
    omega
  · have hroom : room - min room body.length = room - body.length := by omega
    rw [bytes_write slice h.fits_buffer, h.bytes, h.size, h.length_eq, hroom, List.take_append]

theorem acceptAll {calls : List Delivery} (h : Holds room body s) (hcalls : .reset ∉ calls) :
    Holds room (body ++ Delivery.written calls) (Sink.acceptAll s calls) :=
  Sink.acceptAll_written (fun _ h => h) (fun _ h => h) (fun _ h => ⟨h.size, h.fits, h.bytes⟩)
    (fun slice h => h.write slice) h hcalls

end TextSink.Holds

/-- A text that is fetched is the front of what was handed over, as far as there is room for it. The
buffer behind that is as it was before. -/
theorem Client.getText_takes (c : Client) (address : String) (buffer : Bytes)
    (limit timeout : Nat) :
    let t := c.get address timeout
    let u := c.getText address buffer limit timeout
    u.1.client = t.client ∧ u.1.events = t.events ∧
      (∀ e, t.result = .error e → u.1.result = .error e) ∧
      (t.result = .ok () → ∃ n, u.1.result = .ok n ∧
        u.2.take n = (Delivery.written t.deliveries).take (min limit buffer.length)) := by
  intro t u
  refine ⟨rfl, rfl, ?_, ?_⟩
  · intro e he
    change t.result.map _ = _
    rw [he]
    rfl
  · intro hok
    have hok' : (c.execute .get address none timeout).result = .ok () := hok
    obtain ⟨calls, hcalls, ⟨-, e, he⟩ | hhanded⟩ := c.handover_execute .get address none timeout
    · cases hok'.symm.trans he
    · have hcalls : t.deliveries = .reset :: calls := hcalls
      have hstart : TextSink.Holds (min limit buffer.length) []
          (Sink.reset { buffer := buffer.take (min limit buffer.length) : TextSink }) :=
        ⟨by simp [Sink.reset], Nat.zero_le _, List.take_nil.symm⟩
      have hsink : TextSink.Holds (min limit buffer.length) (Delivery.written calls)
          (t.into { buffer := buffer.take (min limit buffer.length) : TextSink }) := by
        rw [Transaction.into, hcalls]
        exact hstart.acceptAll hhanded.reset_not_mem
      refine ⟨_, congrArg (Except.map _) hok, ?_⟩
      refine (List.take_append_of_le_length hsink.fits_buffer).trans (hsink.bytes.trans ?_)
      rw [hcalls]
      rfl

end DeviceHttp
