import DeviceHttp.Proofs.Transfer.Growth
import DeviceHttp.Proofs.Transfer.Rounds
import DeviceHttp.Proofs.Transfer.Sending

/-!
# A transaction with its sink

A transaction is described by the calls it makes, and `Transaction.into` lets a sink have them when
all is over. Here the sink is there while the transaction runs: it is called where a call is made,
its state changes under way, and `Sink.write` is asked how much it kept. `Client.executeInto_eq` says
that both come to the same for every sink, so nothing that a sink answers reaches the result or the
network.

`attend` is the link between the two: it puts beside an exchange what the calls so far have made of a
sink, and every reader commutes with it.
-/

namespace DeviceHttp

/-- An exchange and the sink that its response goes to. -/
structure Attended (σ : Type) where
  exchange : Exchange
  sink : σ

namespace Attended

/-- A result, or a failure, with the exchange and the sink that it leaves. -/
abbrev Outcome (σ α : Type) := EStateM.Result TransferError (Attended σ) α

variable {σ α : Type} [Sink σ]

/-- Do what is no business of the sink. -/
def aside (f : Exchange → Exchange.Outcome α) (a : Attended σ) : Outcome σ α :=
  onState (fun x => { a with exchange := x }) (f a.exchange)

/-- Call the sink. -/
def call (d : Delivery) (a : Attended σ) : Attended σ where
  exchange := a.exchange.deliver d
  sink := Sink.accept a.sink d

/-- Hand a slice to the sink. How much of it was kept is its own affair. -/
def write (slice : Bytes) (a : Attended σ) : Attended σ :=
  match Sink.write slice a.sink with
  | (_, sink) => { exchange := a.exchange.deliver (.write slice), sink }

/-! ## Reading a response into a sink -/

/-- Read the rest of a block of headers, and announce the body. -/
def readHeaders (follow : Bool) (block : HeaderBlock) (a : Attended σ) :
    Outcome σ Exchange.Next :=
  match _h : a.exchange.readLine with
  | .error e y => .error e { a with exchange := y }
  | .ok n y =>
    if n = 0 then
      .ok (.body block.framing)
        (block.announcement.foldl (fun a d => a.call d) { a with exchange := y.consume 2 })
    else
      match block.addLine (y.front n) with
      | .error e => .error e { a with exchange := y }
      | .ok block =>
        match follow, block.location with
        | true, some location =>
          .ok (.redirect location)
            { a with exchange := { y.consume (n + 2) with location := some location } }
        | _, _ =>
          readHeaders follow block
            { a with exchange := { y.consume (n + 2) with
                location := block.location.or y.location } }
termination_by a.exchange.available
decreasing_by exact Exchange.available_lt_of_readLine _h

/-- One round of a header block beside a sink: a line, and then what the line asks for. -/
theorem readHeaders_round (follow : Bool) (block : HeaderBlock) (a : Attended σ) :
    readHeaders follow block a = andThen (aside Exchange.readLine a) fun n b =>
      if n = 0 then
        .ok (.body block.framing) (block.announcement.foldl (fun a d => a.call d)
          { b with exchange := b.exchange.consume 2 })
      else
        match block.addLine (b.exchange.front n) with
        | .error e => .error e b
        | .ok block =>
          match follow, block.location with
          | true, some location =>
            .ok (.redirect location)
              { b with exchange := { b.exchange.consume (n + 2) with location := some location } }
          | _, _ =>
            readHeaders follow block
              { b with exchange := { b.exchange.consume (n + 2) with
                  location := block.location.or b.exchange.location } } := by
  rw [readHeaders, aside]
  split
  · next hy => rw [hy]; rfl
  · next hy => rw [hy]; rfl

/-- Hand so many bytes of the body to the sink. -/
def copy (remaining : Nat) (a : Attended σ) : Outcome σ Unit :=
  if _h0 : remaining = 0 then .ok () a
  else
    match _h : a.exchange.ensurePending with
    | .error e y => .error e { a with exchange := y }
    | .ok _ y =>
      let slice := y.front remaining
      copy (remaining - slice.length)
        (write slice { a with exchange := y.consume slice.length })
termination_by remaining
decreasing_by
  have := List.length_pos_iff.2 (Exchange.pending_ne_nil_of_ensurePending _h)
  simp only [Exchange.front, List.length_take]
  omega

/-- One slice of a body beside a sink, which gets it as soon as it is there. -/
theorem copy_round {n : Nat} (h0 : n ≠ 0) (a : Attended σ) :
    copy n a = andThen (aside Exchange.ensurePending a) fun _ b =>
      copy (n - (b.exchange.front n).length) (write (b.exchange.front n)
        { b with exchange := b.exchange.consume (b.exchange.front n).length }) := by
  rw [copy, dif_neg h0, aside]
  split
  · next hy => rw [hy]; rfl
  · next hy => rw [hy]; rfl

/-- Copying leaves the exchange that it leaves without a sink. -/
theorem exchange_copy (n : Nat) (a : Attended σ) :
    onState Attended.exchange (copy n a) = a.exchange.copy n := by
  fun_induction copy n a with
  | case1 a =>
    rw [Exchange.copy]
    rfl
  | case2 n a h0 e y hy =>
    rw [Exchange.copy_round h0, hy]
    rfl
  | case3 n a h0 u y hy slice ih =>
    rw [Exchange.copy_round h0, hy]
    exact ih

/-- Read chunks up to the empty one, which is handed to the sink. -/
def readChunks (a : Attended σ) : Outcome σ Unit :=
  match _h : a.exchange.readChunkSize with
  | .error e y => .error e { a with exchange := y }
  | .ok size y =>
    if size = 0 then .ok () (write [] { a with exchange := y })
    else
      match _hc : copy size { a with exchange := y } with
      | .error e b => .error e b
      | .ok _ b =>
        match _hf : b.exchange.fillTo 2 with
        | .error e w => .error e { b with exchange := w }
        | .ok _ w =>
          if w.front 2 = Window.crlf then readChunks { b with exchange := w.consume 2 }
          else .error .protocol { b with exchange := w }
termination_by a.exchange.available
decreasing_by
  have hcopy := exchange_copy size { a with exchange := y }
  rw [_hc] at hcopy
  have h1 := Exchange.available_lt_of_readChunkSize _h
  have h2 := Exchange.available_copy_le size y
  have h3 := Exchange.available_fillTo 2 b.exchange
  have h4 := Exchange.available_consume_le 2 w
  rw [← hcopy] at h2
  rw [_hf] at h3
  simp only [onState, Exchange.Outcome.exchange] at h2 h3
  show (w.consume 2).available < _
  omega

/-- One chunk of a body beside a sink, or the end of the body, of which the sink is told by a write
without bytes. -/
theorem readChunks_round (a : Attended σ) :
    readChunks a = andThen (aside Exchange.readChunkSize a) fun size b =>
      if size = 0 then .ok () (write [] b)
      else
        andThen (copy size b) fun _ b => andThen (aside (Exchange.fillTo 2) b) fun _ b =>
          if b.exchange.front 2 = Window.crlf then
            readChunks { b with exchange := b.exchange.consume 2 }
          else .error .protocol b := by
  rw [readChunks, aside]
  split
  · next hy => rw [hy]; rfl
  · next size y hy =>
    rw [hy]
    unfold andThen onState
    dsimp only
    split
    · rfl
    · split
      · next hb => rw [hb]
      · next hb =>
        rw [hb]
        unfold aside onState
        dsimp only
        split
        · next hw => rw [hw]
        · next hw => rw [hw]

/-- Read the body of a response. -/
def readBody (framing : Framing) (a : Attended σ) : Outcome σ Unit :=
  match framing with
  | .length n => copy n a
  | .chunked => readChunks a

/-- What is behind a block of headers. -/
def finish (next : Exchange.Next) (a : Attended σ) : Outcome σ Client.Step :=
  match next with
  | .redirect location => .ok (.redirect location) a
  | .body framing => andThen (readBody framing a) fun _ a => .ok .complete a

/-- What is behind a status line. -/
def judge (follow : Bool) (status : Nat) (a : Attended σ) : Outcome σ Client.Step :=
  if Client.accepts status then andThen (readHeaders follow {} a) finish
  else .error (.status status) a

/-- Read a response. -/
def readResponse (follow : Bool) (a : Attended σ) : Outcome σ Client.Step :=
  andThen (aside Exchange.readStatus a) (judge follow)

/-- Send a request and read its response. -/
def converse (head : RequestHead) (follow : Bool) (a : Attended σ) : Outcome σ Client.Step :=
  andThen (aside (Exchange.sendRequest head) a) fun _ a =>
    readResponse follow { a with exchange := { a.exchange with window := a.exchange.window.clear } }

end Attended

/-! ## Transactions into a sink -/

namespace Client

variable {σ : Type} [Sink σ]

/-- One request and its response on a connection of their own. -/
def exchangeInto (c : Client) (peer : Peer) (head : RequestHead) (source : Option Source)
    (follow : Bool) (timeout : Nat) (s : σ) : Transaction Step × σ :=
  match Attended.converse head follow ⟨c.startExchange peer source timeout, s⟩ with
  | .ok step ⟨x, s⟩ => (⟨.ok step, c.leave x, x.source, x.trace ++ [.close]⟩, s)
  | .error e ⟨x, s⟩ => (⟨.error e, c.leave x, x.source, x.trace ++ [.close]⟩, s)

/-- One attempt. -/
def attemptInto (c : Client) (method : Method) (address : String) (source : Option Source)
    (follow : Bool) (timeout : Nat) (s : σ) : Transaction Step × σ :=
  match Url.parse address with
  | .error e => (⟨.error e, c, source, []⟩, s)
  | .ok url =>
    if url.isHttp then
      match c.network with
      | some peer :: later =>
        let source := source.map Source.reset
        let (t, s) := exchangeInto { c with network := later } peer
          (c.requestHead method url source) source follow timeout s
        (t.after [.connect url.host url.port true], s)
      | none :: later =>
        (⟨.error .unreachable, { c with network := later }, source,
          [.connect url.host url.port false]⟩, s)
      | [] => (⟨.error .unreachable, c, source, [.connect url.host url.port false]⟩, s)
    else (⟨.error .malformedUrl, c, source, []⟩, s)

/-- Attempts from an address on, the first one and at most `redirects` more. -/
def followInto (method : Method) (timeout : Nat) :
    (redirects : Nat) → (address : String) → Option Source → Client → σ → Transaction Unit × σ
  | 0, address, source, c, s =>
    let (t, s) := c.attemptInto method address source false timeout s
    match t.result with
    | .error e => (⟨.error e, t.client, t.source, t.events⟩, s)
    | .ok .complete => (⟨.ok (), t.client, t.source, t.events⟩, s)
    | .ok (.redirect _) => (⟨.error .protocol, t.client, t.source, t.events⟩, s)
  | redirects + 1, address, source, c, s =>
    let (t, s) := c.attemptInto method address source true timeout s
    match t.result with
    | .error e => (⟨.error e, t.client, t.source, t.events⟩, s)
    | .ok .complete => (⟨.ok (), t.client, t.source, t.events⟩, s)
    | .ok (.redirect location) =>
      let (rest, s) := followInto method timeout redirects location t.source t.client s
      (rest.after t.events, s)

/-- A transaction into a sink, which is reset first. -/
def executeInto (method : Method) (address : String) (source : Option Source) (timeout : Nat)
    (s : σ) (c : Client) : Transaction Unit × σ :=
  let (t, s) := followInto method timeout (c.attempts - 1) address source { c with status := 0 }
    (Sink.reset s)
  (t.after [.deliver .reset], s)

end Client

/-! ## What the sink makes of the calls -/

namespace Attended

variable {σ α : Type} [Sink σ] (s : σ)

/-- An exchange, and what its calls so far have made of a sink. -/
def attend (x : Exchange) : Attended σ :=
  ⟨x, Sink.acceptAll s (deliveries x.trace)⟩

/-- An exchange that goes on without a call leaves the sink alone. -/
theorem attend_of_deliveries_eq {x y : Exchange} (h : deliveries y.trace = deliveries x.trace) :
    { attend s x with exchange := y } = attend s y := by
  unfold attend
  rw [h]

/-- What calls no sink can be done beside it or without it. -/
theorem aside_attend {f : Exchange → Exchange.Outcome α} {x : Exchange}
    (h : deliveries (f x).exchange.trace = deliveries x.trace) :
    aside f (attend s x) = onState (attend s) (f x) := by
  unfold aside
  rw [show (attend s x).exchange = x from rfl]
  cases hy : f x with
  | ok a y =>
    rw [hy] at h
    exact congrArg (EStateM.Result.ok a) (attend_of_deliveries_eq s h)
  | error e y =>
    rw [hy] at h
    exact congrArg (EStateM.Result.error e) (attend_of_deliveries_eq s h)

theorem call_attend (d : Delivery) (x : Exchange) :
    (attend s x).call d = attend s (x.deliver d) := by
  simp [call, attend, Exchange.deliver, Exchange.note, deliveries, Event.delivery?]

/-- Calls made one by one beside the sink are the calls on record. -/
theorem calls_attend (calls : List Delivery) (x : Exchange) :
    calls.foldl (fun a d => a.call d) (attend s x) = attend s (x.deliverAll calls) := by
  induction calls generalizing x with
  | nil => simp [Exchange.deliverAll]
  | cons d calls ih =>
    rw [List.foldl_cons, call_attend, ih]
    simp [Exchange.deliverAll, Exchange.deliver, Exchange.note]

theorem write_attend (slice : Bytes) (x : Exchange) :
    write slice (attend s x) = attend s (x.deliver (.write slice)) :=
  call_attend s (.write slice) x

/-- A header block does beside a sink what it does alone, and its last line has the sink told of the
body. -/
theorem readHeaders_attend (follow : Bool) (block : HeaderBlock) (x : Exchange) :
    readHeaders follow block (attend s x) = onState (attend s) (x.readHeaders follow block) := by
  have hline := aside_attend s (Exchange.adds_readLine x).deliveries_eq
  fun_induction Exchange.readHeaders follow block x with
  | case1 block x e y hy =>
    rw [readHeaders_round, hline, hy]
    rfl
  | case2 block x y hy =>
    rw [readHeaders_round, hline, hy]
    exact congrArg (EStateM.Result.ok _) (calls_attend s block.announcement (y.consume 2))
  | case3 block x n y hy hn e hb =>
    rw [readHeaders_round, hline, hy]
    show (if n = 0 then _ else _) = _
    rw [if_neg hn, show (attend s y).exchange = y from rfl, hb]
    rfl
  | case4 block x n y hy hn later hb location hlocation hfollow =>
    rw [readHeaders_round, hline, hy, hfollow]
    show (if n = 0 then _ else _) = _
    rw [if_neg hn, show (attend s y).exchange = y from rfl, hb]
    dsimp only
    rw [hlocation]
    rfl
  | case5 block x n y hy hn later hb hlocation ih =>
    rw [readHeaders_round, hline, hy]
    show (if n = 0 then _ else _) = _
    rw [if_neg hn, show (attend s y).exchange = y from rfl, hb]
    dsimp only
    split
    · next location hlocation' => exact (hlocation location rfl hlocation').elim
    · exact ih (aside_attend s (Exchange.adds_readLine _).deliveries_eq)

/-- A copy does beside a sink what it does alone. The sink is asked how much it kept of a slice, and
the answer changes nothing. -/
theorem copy_attend (n : Nat) (x : Exchange) :
    copy n (attend s x) = onState (attend s) (x.copy n) := by
  fun_induction Exchange.copy n x with
  | case1 x =>
    rw [copy]
    rfl
  | case2 n x h0 e y hy =>
    rw [copy_round h0, aside_attend s (Exchange.adds_ensurePending x).deliveries_eq, hy]
    rfl
  | case3 n x h0 u y hy slice ih =>
    rw [copy_round h0, aside_attend s (Exchange.adds_ensurePending x).deliveries_eq, hy]
    rw [← write_attend] at ih
    exact ih

/-- A chunked body does beside a sink what it does alone, chunk by chunk. Between two calls nothing
looks at the sink, so what it has become is what the calls on record make of it. -/
theorem readChunks_attend (x : Exchange) :
    readChunks (attend s x) = onState (attend s) x.readChunks := by
  fun_induction Exchange.readChunks x with
  | case1 x e y hy =>
    rw [readChunks_round, aside_attend s (Exchange.adds_readChunkSize x).deliveries_eq, hy]
    rfl
  | case2 x y hy =>
    rw [readChunks_round, aside_attend s (Exchange.adds_readChunkSize x).deliveries_eq, hy]
    exact congrArg (EStateM.Result.ok ()) (write_attend s [] y)
  | case3 x size y hy hsize e z hz =>
    rw [readChunks_round, aside_attend s (Exchange.adds_readChunkSize x).deliveries_eq, hy]
    show (if size = 0 then _ else _) = _
    rw [if_neg hsize, copy_attend, hz]
    rfl
  | case4 x size y hy hsize u z hz e w hw =>
    rw [readChunks_round, aside_attend s (Exchange.adds_readChunkSize x).deliveries_eq, hy]
    show (if size = 0 then _ else _) = _
    rw [if_neg hsize, copy_attend, hz]
    show andThen (aside (Exchange.fillTo 2) (attend s z)) _ = _
    rw [aside_attend s (Exchange.adds_fillTo 2 z).deliveries_eq, hw]
    rfl
  | case5 x size y hy hsize u z hz v w hw hcrlf ih =>
    rw [readChunks_round, aside_attend s (Exchange.adds_readChunkSize x).deliveries_eq, hy]
    show (if size = 0 then _ else _) = _
    rw [if_neg hsize, copy_attend, hz]
    show andThen (aside (Exchange.fillTo 2) (attend s z)) _ = _
    rw [aside_attend s (Exchange.adds_fillTo 2 z).deliveries_eq, hw]
    exact (if_pos hcrlf).trans ih
  | case6 x size y hy hsize u z hz v w hw hcrlf =>
    rw [readChunks_round, aside_attend s (Exchange.adds_readChunkSize x).deliveries_eq, hy]
    show (if size = 0 then _ else _) = _
    rw [if_neg hsize, copy_attend, hz]
    show andThen (aside (Exchange.fillTo 2) (attend s z)) _ = _
    rw [aside_attend s (Exchange.adds_fillTo 2 z).deliveries_eq, hw]
    exact if_neg hcrlf

theorem readBody_attend (framing : Framing) (x : Exchange) :
    readBody framing (attend s x) = onState (attend s) (x.readBody framing) := by
  cases framing with
  | length n => exact copy_attend s n x
  | chunked => exact readChunks_attend s x

/-- A response is read in front of a sink as it is read without one, and the sink has been called by
then as the trace says. -/
theorem readResponse_attend (follow : Bool) (x : Exchange) :
    readResponse follow (attend s x) = onState (attend s) (Client.readResponse follow x) := by
  rw [Exchange.readResponse_eq, readResponse,
    aside_attend s (Exchange.adds_readStatus x).deliveries_eq]
  apply andThen_onState
  intro status y _
  unfold judge Exchange.judge
  split
  · rw [readHeaders_attend]
    apply andThen_onState
    intro next z _
    cases next with
    | redirect location => rfl
    | body framing =>
      unfold finish Exchange.finish
      dsimp only
      rw [readBody_attend]
      apply andThen_onState
      intro _ w _
      rfl
  · rfl

/-- A whole conversation does beside a sink what it does alone; the request does not look at the
sink, and every reader of the response goes along. -/
theorem converse_attend (head : RequestHead) (follow : Bool) (x : Exchange) :
    converse head follow (attend s x) = onState (attend s) (Client.converse head follow x) := by
  rw [Exchange.converse_eq, converse,
    aside_attend s (Exchange.sent_sendRequest head x).deliveries_eq]
  apply andThen_onState
  intro _ y _
  exact readResponse_attend s follow { y with window := y.window.clear }

end Attended

namespace Client

variable {σ : Type} [Sink σ]

/-- One exchange with its sink is the exchange without it, and the sink has then been called as the
events say. -/
theorem exchangeInto_eq (c : Client) (peer : Peer) (head : RequestHead) (source : Option Source)
    (follow : Bool) (timeout : Nat) (s : σ) :
    c.exchangeInto peer head source follow timeout s
      = (c.exchangeWith peer head source follow timeout,
        (c.exchangeWith peer head source follow timeout).into s) := by
  have hattend := Attended.converse_attend s head follow (c.startExchange peer source timeout)
  have hinto (x : Exchange) :
      Sink.acceptAll s (deliveries x.trace)
        = Sink.acceptAll s (deliveries (x.trace ++ [.close])) := by
    rw [deliveries_append]
    exact congrArg (Sink.acceptAll s) (List.append_nil _).symm
  unfold exchangeInto exchangeWith
  rw [show (⟨c.startExchange peer source timeout, s⟩ : Attended σ)
    = Attended.attend s (c.startExchange peer source timeout) from rfl, hattend]
  cases converse head follow (c.startExchange peer source timeout) with
  | ok step x => exact Prod.ext rfl (hinto x)
  | error e x => exact Prod.ext rfl (hinto x)

/-- One attempt with its sink is the attempt without it. Where no connection is made the sink is not
called at all. -/
theorem attemptInto_eq (c : Client) (method : Method) (address : String) (source : Option Source)
    (follow : Bool) (timeout : Nat) (s : σ) :
    c.attemptInto method address source follow timeout s
      = (c.attempt method address source follow timeout,
        (c.attempt method address source follow timeout).into s) := by
  unfold attemptInto attempt
  cases Url.parse address with
  | error e => rfl
  | ok url =>
    dsimp only
    split
    · rcases c.network with _ | ⟨_ | peer, later⟩
      · rfl
      · rfl
      · dsimp only
        rw [exchangeInto_eq]
        rfl
    · rfl

/-- All attempts with their sink are the attempts without it: the sink goes from one to the next
with the calls so far, so in the end it has had all of them in order. -/
theorem followInto_eq (method : Method) (timeout redirects : Nat) (address : String)
    (source : Option Source) (c : Client) (s : σ) :
    c.followInto method timeout redirects address source s
      = (c.follow method timeout redirects address source,
        (c.follow method timeout redirects address source).into s) := by
  induction redirects generalizing address source c s with
  | zero =>
    unfold followInto follow
    rw [attemptInto_eq]
    rcases c.attempt method address source false timeout with
      ⟨e | _ | location, client, source, events⟩ <;> rfl
  | succ redirects ih =>
    unfold followInto follow
    rw [attemptInto_eq]
    rcases c.attempt method address source true timeout with
      ⟨e | _ | location, client, source, events⟩
    · rfl
    · rfl
    · dsimp only
      rw [ih]
      refine Prod.ext rfl ?_
      simp [Transaction.into, Transaction.after, Transaction.deliveries]

/-- A transaction into a sink is the transaction, and the sink has had its calls. -/
theorem executeInto_eq (method : Method) (address : String) (source : Option Source)
    (timeout : Nat) (s : σ) (c : Client) :
    c.executeInto method address source timeout s
      = (c.execute method address source timeout,
        (c.execute method address source timeout).into s) := by
  unfold executeInto
  rw [followInto_eq]
  rfl

end Client

end DeviceHttp
