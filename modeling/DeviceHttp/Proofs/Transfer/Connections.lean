import DeviceHttp.Proofs.Transfer.History
import DeviceHttp.Proofs.Transfer.Trails

/-!
# Connections over a whole history

`Line` is where the one connection of a client stands, and `Line.step` says which events it allows
there: what is sent comes before what is received, and an open connection is closed before anything
else is opened. There is no step that closes a connection twice, or that uses one before it is opened
or after it is closed; a connection that was refused allows nothing more. Every log of every history
is a run of it that ends without an open connection (`Client.logs_close_connections`), because every
attempt is one, whatever made it end.
-/

namespace DeviceHttp

/-- Where a connection stands in a transaction. -/
inductive Line
  /-- There is no connection. -/
  | closed
  /-- The connection was refused. -/
  | refused
  /-- There is a connection, on which nothing was received yet. -/
  | sending
  /-- There is a connection, on which something was received. -/
  | receiving
  deriving DecidableEq, Repr

namespace Line

/-- Where an event takes a connection; calls of the sink are no business of it. -/
def step : Line → Event → Option Line
  | .closed, .connect _ _ accepted => some (if accepted then .sending else .refused)
  | .sending, .send _ _ _ => some .sending
  | .sending, .receive _ _ _ _ => some .receiving
  | .receiving, .receive _ _ _ _ => some .receiving
  | .sending, .close => some .closed
  | .receiving, .close => some .closed
  | line, .deliver _ => some line
  | _, _ => none

/-- Where a list of events takes a connection, if they are allowed. -/
def run (line : Line) (events : List Event) : Option Line :=
  events.foldlM step line

/-- There is a connection. -/
def isOpen : Line → Bool
  | .sending => true
  | .receiving => true
  | _ => false

@[simp] theorem run_nil (line : Line) : line.run [] = some line := rfl

theorem run_cons (line : Line) (e : Event) (events : List Event) :
    line.run (e :: events) = (line.step e).bind fun next => next.run events := rfl

theorem run_append {line next : Line} {events : List Event} (h : line.run events = some next)
    (later : List Event) : line.run (events ++ later) = next.run later := by
  unfold run at h ⊢
  rw [List.foldlM_append, h]
  rfl

/-- An observer of the network sees the connection go the same way: a call of the sink takes it
nowhere, so it can be left out of the list. -/
theorem run_networkEvents (line : Line) (events : List Event) :
    line.run (networkEvents events) = line.run events := by
  induction events generalizing line with
  | nil => rfl
  | cons e events ih =>
    cases e with
    | deliver call =>
      have hstep : line.step (.deliver call) = some line := by cases line <;> rfl
      rw [run_cons, hstep, Option.bind_some]
      exact ih line
    | _ => exact congrArg (Option.bind _) (funext ih)

/-- As long as nothing is received, sending leaves a connection as it is. -/
theorem run_sends {events : List Event}
    (h : ∀ e ∈ events, ∃ bytes timeout accepted, e = .send bytes timeout accepted) :
    run .sending events = some .sending := by
  induction events with
  | nil => rfl
  | cons e events ih =>
    obtain ⟨⟨bytes, timeout, accepted, rfl⟩, hevents⟩ := List.forall_mem_cons.1 h
    exact ih hevents

/-- What a response does leaves an open connection open. Once something was received nothing more is
sent, and a response sends nothing. -/
theorem run_replies {line : Line} {events : List Event} (hline : line.isOpen = true)
    (h : ∀ e ∈ events, e.IsReply) : ∃ next, line.run events = some next ∧ next.isOpen = true := by
  induction events generalizing line with
  | nil => exact ⟨line, rfl, hline⟩
  | cons e events ih =>
    obtain ⟨he, hevents⟩ := List.forall_mem_cons.1 h
    cases e with
    | receive room minimum timeout bytes =>
      have hreceiving : Line.isOpen .receiving = true := rfl
      obtain ⟨next, hnext, hopen⟩ := ih hreceiving hevents
      cases line with
      | sending => exact ⟨next, hnext, hopen⟩
      | receiving => exact ⟨next, hnext, hopen⟩
      | _ => cases hline
    | deliver call =>
      obtain ⟨next, hnext, hopen⟩ := ih hline hevents
      refine ⟨next, ?_, hopen⟩
      cases line <;> exact hnext
    | _ => exact he.elim

theorem step_close {line : Line} (h : line.isOpen = true) : line.step .close = some .closed := by
  cases line with
  | sending => rfl
  | receiving => rfl
  | _ => cases h

end Line

/-- What an exchange did: it sent, and then it received and called the sink. -/
theorem Exchange.trace_of_converse (head : RequestHead) (follow : Bool) {x : Exchange}
    (hx : x.trace = []) :
    ∃ sends replies,
      (Outcome.exchange (Client.converse head follow x)).trace = sends ++ replies ∧
      (∀ e ∈ sends, ∃ bytes timeout accepted, e = .send bytes timeout accepted) ∧
      ∀ e ∈ replies, e.IsReply := by
  obtain ⟨y, hsent, hcases⟩ := converse_cases head follow x
  obtain ⟨sends, hsends, hkind⟩ := hsent.trace
  rw [hx, List.nil_append] at hsends
  have hkind : ∀ e ∈ sends, ∃ bytes timeout accepted, e = .send bytes timeout accepted := by
    intro e he
    obtain ⟨bytes, accepted, rfl⟩ := hkind e he
    exact ⟨bytes, x.timeout, accepted, rfl⟩
  rcases hcases with ⟨e, h⟩ | h
  · exact ⟨sends, [], by rw [h, List.append_nil]; exact hsends, hkind, by simp⟩
  · obtain ⟨replies, hreplies, hreply⟩ :=
      adds_readResponse follow { y with window := y.window.clear }
    exact ⟨sends, replies, by rw [h, hreplies]; exact congrArg (· ++ replies) hsends, hkind,
      hreply⟩

namespace Visit

variable {method : Method} {timeout : Nat}

/-- What the attempt at a visit does: nothing, or a connection is refused, or there is one, which is
closed in the end. -/
inductive Shape (v : Visit) (t : Transaction Client.Step) : Prop
  | malformed (unusable : ∀ url, Url.parse v.address = .ok url → url.isHttp = false)
    (result : t.result = .error .malformedUrl) (events : t.events = [])
  | refused {url : Url} (address : Url.parse v.address = .ok url) (http : url.isHttp = true)
    (result : t.result = .error .unreachable)
    (events : t.events = [.connect url.host url.port false])
    (network : ∀ peer, v.client.network.head? ≠ some (some peer))
  | connected {url : Url} {sends replies : List Event} (address : Url.parse v.address = .ok url)
    (http : url.isHttp = true)
    (sent : ∀ e ∈ sends, ∃ bytes timeout accepted, e = .send bytes timeout accepted)
    (replied : ∀ e ∈ replies, e.IsReply)
    (events : t.events = .connect url.host url.port true :: (sends ++ replies ++ [.close]))
    (network : ∃ peer, v.client.network.head? = some (some peer))

/-- An attempt asks for at most one connection, and closes it behind all that it does with it.
Whether it gets one is what the first peer of the network decides. -/
theorem attempt_shape (method : Method) (timeout : Nat) (v : Visit) :
    v.Shape (v.attempt method timeout) := by
  have hcourse := v.attempt_course method timeout
  generalize v.attempt method timeout = t at *
  cases hcourse with
  | malformed unusable => exact .malformed unusable rfl rfl
  | refused address http network => exact .refused address http rfl rfl network
  | @connected url peer o address http network converse =>
    obtain ⟨sends, replies, htrace, hsends, hreplies⟩ :=
      Exchange.trace_of_converse (v.head method url) v.follows (x := v.start peer timeout) rfl
    rw [converse] at htrace
    exact .connected address http hsends hreplies (by rw [htrace]) ⟨peer, network⟩

/-- An attempt leaves no open connection, and no refused one if there was a response. So another
attempt can follow only where the last one was closed. -/
theorem run_attempt (method : Method) (timeout : Nat) (v : Visit) :
    Line.run .closed (v.attempt method timeout).events = some .closed ∨
      Line.run .closed (v.attempt method timeout).events = some .refused ∧
        ∃ e, (v.attempt method timeout).result = .error e := by
  cases v.attempt_shape method timeout with
  | malformed unusable result events =>
    rw [events]
    exact .inl rfl
  | refused address http result events =>
    rw [events]
    exact .inr ⟨rfl, _, result⟩
  | connected address http sent replied events =>
    have hsending : Line.isOpen .sending = true := rfl
    obtain ⟨next, hnext, hopen⟩ := Line.run_replies hsending replied
    refine .inl ?_
    rw [events, Line.run_cons]
    show Line.run .sending _ = _
    rw [List.append_assoc, Line.run_append (Line.run_sends sent), Line.run_append hnext,
      Line.run_cons, Line.step_close hopen]
    rfl

/-- All attempts of a transaction leave no open connection. An attempt that is not the last one had
a response, so it was closed and the next one may open its own. -/
theorem run_trail {v : Visit} {vs : List Visit} (h : Trail method timeout v vs) :
    ∃ line, Line.run .closed (eventsOf method timeout vs) = some line ∧ line.isOpen = false := by
  induction h with
  | @last v ends =>
    have hevents : eventsOf method timeout [v] = (v.attempt method timeout).events :=
      List.append_nil _
    rw [hevents]
    rcases v.run_attempt method timeout with hrun | ⟨hrun, -⟩
    · exact ⟨_, hrun, rfl⟩
    · exact ⟨_, hrun, rfl⟩
  | @hop v location later followed rest ih =>
    obtain ⟨line, hline, hclosed⟩ := ih
    rcases v.run_attempt method timeout with hrun | ⟨-, e, he⟩
    · exact ⟨line, (Line.run_append hrun _).trans hline, hclosed⟩
    · cases followed.symm.trans he

end Visit

namespace Client

/-- A transaction leaves no open connection. -/
theorem run_execute (c : Client) (method : Method) (address : String) (source : Option Source)
    (timeout : Nat) :
    ∃ line, Line.run .closed (c.execute method address source timeout).events = some line ∧
      line.isOpen = false := by
  obtain ⟨vs, htrail⟩ := Visit.exists_trail method timeout (c.firstVisit address source)
  obtain ⟨before, last, -, -, -, -, htransaction⟩ := htrail.concludes
  obtain ⟨line, hline, hclosed⟩ := Visit.run_trail htrail
  refine ⟨line, ?_, hclosed⟩
  rw [execute_eq, htransaction]
  exact hline

/-- Whatever is done with a client, and whatever its peers do, each call uses its connections in
order: one is opened when none is open, everything is sent on it before anything is received, and it
is closed once, before the next one is opened and before the call is over. Behind a connection that
is refused a call does nothing more. -/
theorem logs_close_connections (c : Client) (calls : List Call) :
    ∀ log ∈ (c.callAll calls).2, ∃ line, Line.run .closed log = some line ∧
      line.isOpen = false := by
  induction calls generalizing c with
  | nil => simp [callAll]
  | cons call calls ih =>
    intro log hlog
    rcases List.mem_cons.1 hlog with rfl | hlater
    · rcases c.call_cases call with hnone | ⟨method, address, source, timeout, hcall⟩
      · rw [hnone]
        exact ⟨.closed, rfl, rfl⟩
      · rw [hcall]
        exact c.run_execute method address source timeout
    · exact ih (c.call call).1 log hlater

/-- A status that is not accepted ends the call in the middle of the response; the connection is
closed all the same. -/
theorem logs_close_connections_of_rejection :
    let c := { new 16 with
      network := [some { arrivals := [.data (Utf8.ofString "HTTP/1.1 404\r\n")] }] }
    let log := (c.call (.execute .get "http://a/" none 1000)).2
    (.connect "a" 80 true ∈ log ∧ .close ∈ log) ∧
      ∃ line, Line.run .closed log = some line ∧ line.isOpen = false :=
  ⟨by decide +kernel, logs_close_connections _ [.execute .get "http://a/" none 1000] _
    List.mem_cons_self⟩

end Client

end DeviceHttp
