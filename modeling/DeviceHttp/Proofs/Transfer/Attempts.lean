import DeviceHttp.Transfer.Client

/-!
# From attempt to attempt

An attempt is an exchange on a connection, or it fails before there is one. A transaction is a chain
of attempts: `Visit` is where it stands in front of one of them, and `Visit.Hops` is the way from one
to another over the locations that are followed. What a transaction comes to is what it comes to from
any visit on its way (`Visit.transaction_of_hops`).
-/

namespace DeviceHttp

/-- The result of an outcome, without the exchange. -/
def Exchange.Outcome.result {α : Type} : Outcome α → Except TransferError α
  | .ok a _ => .ok a
  | .error e _ => .error e

namespace Client

/-- An exchange is its conversation, whatever came of it, and the connection is closed behind it. -/
theorem exchangeWith_eq (c : Client) (peer : Peer) (head : RequestHead)
    (source : Option Source) (follow : Bool) (timeout : Nat) :
    c.exchangeWith peer head source follow timeout =
      let outcome := converse head follow (c.startExchange peer source timeout)
      ⟨outcome.result, c.leave outcome.exchange, outcome.exchange.source,
        outcome.exchange.trace ++ [.close]⟩ := by
  unfold exchangeWith
  cases converse head follow (c.startExchange peer source timeout) <;> rfl

section Attempt

variable {c : Client} {method : Method} {address : String} {source : Option Source}
  {follow : Bool} {timeout : Nat}

/-- An attempt at an address of the right scheme whose connection is accepted is an exchange with
that peer, behind the event of the connection. It starts with the source reset. -/
theorem attempt_of_connection {url : Url} {peer : Peer} {later : List (Option Peer)}
    (hurl : Url.parse address = .ok url) (hhttp : url.isHttp = true)
    (hnetwork : c.network = some peer :: later) :
    c.attempt method address source follow timeout =
      (exchangeWith { c with network := later } peer
        (c.requestHead method url (source.map Source.reset)) (source.map Source.reset) follow
        timeout).after [.connect url.host url.port true] := by
  unfold attempt
  rw [hurl]
  dsimp only
  rw [if_pos hhttp, hnetwork]

/-- Without a peer there is no connection. -/
theorem attempt_of_refusal {url : Url} (hurl : Url.parse address = .ok url)
    (hhttp : url.isHttp = true) (hnetwork : ∀ peer, c.network.head? ≠ some (some peer)) :
    c.attempt method address source follow timeout =
      ⟨.error .unreachable, { c with network := c.network.tail }, source,
        [.connect url.host url.port false]⟩ := by
  unfold attempt
  rw [hurl]
  dsimp only
  rw [if_pos hhttp]
  rcases c with ⟨window, _ | ⟨_ | peer, later⟩, authorization, headers, attempts, status, location⟩
  · rfl
  · rfl
  · exact absurd rfl (hnetwork peer)

/-- An attempt that does not fail had a connection: its address was one to go to, and the first peer
of the network took the call. -/
theorem connection_of_attempt {step : Step}
    (h : (c.attempt method address source follow timeout).result = .ok step) :
    ∃ url peer later, Url.parse address = .ok url ∧ url.isHttp = true ∧
      c.network = some peer :: later := by
  unfold attempt at h
  cases hurl : Url.parse address with
  | error e =>
    rw [hurl] at h
    cases h
  | ok url =>
    rw [hurl] at h
    dsimp only at h
    split at h
    · next hhttp =>
      split at h
      · next peer later hnetwork => exact ⟨url, peer, later, rfl, hhttp, hnetwork⟩
      · cases h
      · cases h
    · cases h

end Attempt

end Client

/-- Where a transaction stands in front of an attempt. -/
structure Visit where
  /-- How many redirects it may still follow. -/
  redirects : Nat
  address : String
  source : Option Source
  client : Client

namespace Visit

variable {v w : Visit} {method : Method} {timeout : Nat}

/-- Whether a location would be followed. -/
def follows (v : Visit) : Bool :=
  v.redirects ≠ 0

/-- The attempt at a visit. -/
def attempt (method : Method) (timeout : Nat) (v : Visit) : Transaction Client.Step :=
  v.client.attempt method v.address v.source v.follows timeout

/-- The head of the request that is sent at a visit. -/
def head (method : Method) (url : Url) (v : Visit) : RequestHead :=
  v.client.requestHead method url (v.source.map Source.reset)

/-- The exchange with a peer that starts at a visit. -/
def start (peer : Peer) (timeout : Nat) (v : Visit) : Exchange :=
  v.client.startExchange peer (v.source.map Source.reset) timeout

/-- The rest of the transaction from a visit on. -/
def transaction (method : Method) (timeout : Nat) (v : Visit) : Transaction Unit :=
  v.client.follow method timeout v.redirects v.address v.source

/-- How the attempt at a visit goes: its address is none that can be opened, or there is no
connection, or all is decided by the exchange on the connection. -/
inductive Course (method : Method) (timeout : Nat) (v : Visit) : Transaction Client.Step → Prop
  | malformed (unusable : ∀ url, Url.parse v.address = .ok url → url.isHttp = false) :
    Course method timeout v ⟨.error .malformedUrl, v.client, v.source, []⟩
  | refused {url : Url} (address : Url.parse v.address = .ok url) (http : url.isHttp = true)
    (network : ∀ peer, v.client.network.head? ≠ some (some peer)) :
    Course method timeout v ⟨.error .unreachable,
      { v.client with network := v.client.network.tail }, v.source,
      [.connect url.host url.port false]⟩
  | connected {url : Url} {peer : Peer} {o : Exchange.Outcome Client.Step}
    (address : Url.parse v.address = .ok url) (http : url.isHttp = true)
    (network : v.client.network.head? = some (some peer))
    (converse : Client.converse (v.head method url) v.follows (v.start peer timeout) = o) :
    Course method timeout v ⟨o.result,
      Client.leave { v.client with network := v.client.network.tail } o.exchange,
      o.exchange.source, .connect url.host url.port true :: (o.exchange.trace ++ [.close])⟩

/-- The course of an attempt by cases. It is told without the functions of the client, so that what
follows from it need not open them again. -/
theorem attempt_course (method : Method) (timeout : Nat) (v : Visit) :
    Course method timeout v (v.attempt method timeout) := by
  cases hurl : Url.parse v.address with
  | error e =>
    have hmalformed : v.attempt method timeout
        = ⟨.error .malformedUrl, v.client, v.source, []⟩ := by
      rw [attempt, Client.attempt, hurl, Url.error_of_parse hurl]
    rw [hmalformed]
    exact .malformed fun url h => by cases hurl.symm.trans h
  | ok url =>
    by_cases hhttp : url.isHttp = true
    · by_cases hpeer : ∃ peer, v.client.network.head? = some (some peer)
      · obtain ⟨peer, hhead⟩ := hpeer
        obtain ⟨later, hnetwork⟩ := List.head?_eq_some_iff.1 hhead
        have htail : later = v.client.network.tail := by
          rw [hnetwork]
          rfl
        rw [attempt, Client.attempt_of_connection hurl hhttp hnetwork, Client.exchangeWith_eq,
          htail]
        exact .connected hurl hhttp hhead rfl
      · have hrefused (peer : Peer) : v.client.network.head? ≠ some (some peer) := by
          intro h
          exact hpeer ⟨peer, h⟩
        rw [attempt, Client.attempt_of_refusal hurl hhttp hrefused]
        exact .refused hurl hhttp hrefused
    · have hmalformed : v.attempt method timeout
          = ⟨.error .malformedUrl, v.client, v.source, []⟩ := by
        rw [attempt, Client.attempt, hurl]
        exact if_neg hhttp
      rw [hmalformed]
      refine .malformed fun url' h => ?_
      obtain rfl := Except.ok.inj (hurl.symm.trans h)
      exact Bool.eq_false_iff.2 hhttp

/-- An attempt is the last one, or it names a location and there is one more attempt, for which the
budget is one less. -/
theorem transaction_eq (v : Visit) :
    v.transaction method timeout =
      let t := v.attempt method timeout
      match t.result, v.redirects with
      | .error e, _ => ⟨.error e, t.client, t.source, t.events⟩
      | .ok .complete, _ => ⟨.ok (), t.client, t.source, t.events⟩
      | .ok (.redirect _), 0 => ⟨.error .protocol, t.client, t.source, t.events⟩
      | .ok (.redirect location), redirects + 1 =>
        (transaction method timeout ⟨redirects, location, t.source, t.client⟩).after t.events := by
  rcases v with ⟨redirects, address, source, client⟩
  cases redirects with
  | zero =>
    have hattempt : attempt method timeout ⟨0, address, source, client⟩
        = client.attempt method address source false timeout := rfl
    rw [hattempt, transaction, Client.follow]
    dsimp only
    cases (client.attempt method address source false timeout).result with
    | error e => rfl
    | ok step => cases step <;> rfl
  | succ redirects =>
    have hattempt : attempt method timeout ⟨redirects + 1, address, source, client⟩
        = client.attempt method address source true timeout := rfl
    rw [hattempt, transaction, Client.follow]
    dsimp only
    cases (client.attempt method address source true timeout).result with
    | error e => rfl
    | ok step => cases step <;> rfl

/-- A response that is complete ends the transaction with success, and there are no other events. -/
theorem transaction_of_complete (h : (v.attempt method timeout).result = .ok .complete) :
    (v.transaction method timeout).result = .ok () ∧
      (v.transaction method timeout).events = (v.attempt method timeout).events := by
  rw [transaction_eq]
  dsimp only
  rw [h]
  exact ⟨rfl, rfl⟩

/-- A failure ends the transaction, and there are no other events: nothing is tried again. -/
theorem transaction_of_error {e : TransferError}
    (h : (v.attempt method timeout).result = .error e) :
    (v.transaction method timeout).result = .error e ∧
      (v.transaction method timeout).events = (v.attempt method timeout).events := by
  rw [transaction_eq]
  dsimp only
  rw [h]
  exact ⟨rfl, rfl⟩

/-- A visit is reached from another one by following locations; the events are those of the attempts
on the way. -/
inductive Hops (method : Method) (timeout : Nat) : Visit → List Event → Visit → Prop
  | here (v : Visit) : Hops method timeout v [] v
  | hop {v w : Visit} {redirects : Nat} {location : String} {events : List Event}
    (left : v.redirects = redirects + 1)
    (followed : (v.attempt method timeout).result = .ok (.redirect location))
    (rest : Hops method timeout ⟨redirects, location, (v.attempt method timeout).source,
      (v.attempt method timeout).client⟩ events w) :
    Hops method timeout v ((v.attempt method timeout).events ++ events) w

/-- What a transaction comes to is what it comes to from any visit on its way, behind the events
that led there. -/
theorem transaction_of_hops {events : List Event} (h : Hops method timeout v events w) :
    v.transaction method timeout = (w.transaction method timeout).after events := by
  induction h with
  | here v => rfl
  | hop left followed rest ih =>
    rw [transaction_eq, left]
    dsimp only
    rw [followed]
    dsimp only
    rw [ih]
    simp [Transaction.after]

end Visit

/-- Where a transaction of this client starts. -/
def Client.firstVisit (address : String) (source : Option Source) (c : Client) : Visit :=
  ⟨c.attempts - 1, address, source, { c with status := 0 }⟩

theorem Client.execute_eq (c : Client) (method : Method) (address : String)
    (source : Option Source) (timeout : Nat) :
    c.execute method address source timeout
      = ((c.firstVisit address source).transaction method timeout).after [.deliver .reset] :=
  rfl

end DeviceHttp
