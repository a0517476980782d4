import DeviceHttp.Proofs.Machine.Replies
import DeviceHttp.Proofs.Machine.Supplies
import DeviceHttp.Proofs.Transfer.Waits

/-!
# Transactions on a device

A whole transaction as a program that could trap at every index and every difference, and that could
run forever in every loop. It does neither: whatever the connections do, and whatever the body is
read from, if only its reads end, it comes to a report, and no attempt in it waits more often than
it received bytes, but for once. On the sources of a client the report is that of the client's own
transaction (`execute_comes_to_report`).
-/

namespace DeviceHttp.Machine

/-! ## The program -/

/-- A client as it stands in memory. -/
structure Device where
  cells : Cells
  network : List (Option Peer)
  authorization : Option String
  headers : List Header
  attempts : Nat
  status : Nat
  location : Option String

/-- The device is this client. -/
structure Device.Mirrors (d : Device) (c : Client) : Prop where
  cells : d.cells.Holds c.window
  network : d.network = c.network
  authorization : d.authorization = c.authorization
  headers : d.headers = c.headers
  attempts : d.attempts = c.attempts
  status : d.status = c.status
  location : d.location = c.location

/-- What an attempt leaves. -/
structure Leg (σ : Type) where
  result : Except TransferError Client.Step
  device : Device
  /-- What is left of the body, if the attempt succeeded. -/
  source : Option σ
  events : List Event

/-- What a transaction leaves. -/
structure Report where
  result : Except TransferError Unit
  device : Device
  /-- What was done in front of the first attempt. -/
  opening : List Event := []
  /-- What was done in each attempt. -/
  legs : List (List Event)

/-- Everything that was done. -/
def Report.events (r : Report) : List Event :=
  r.opening ++ r.legs.flatten

/-- Forget the bytes in the buffer. -/
def clear : Act Unit := do
  let r ← get
  set { r with cells := r.cells.clear }

section Program

variable {σ : Type} (supply : Supply σ) (cut : RequestHead → List Bytes)

/-- Send a request whose head is written in parts, and read its response. -/
def converse (parts : List Bytes) (follow : Bool) (source : Option σ) :
    Act (Client.Step × Option σ) := do
  sendHead parts
  let rest ← sendBody supply source
  clear
  let step ← readResponse follow
  pure (step, rest)

/-- The head of a request of this device. -/
def Device.requestHead (d : Device) (method : Method) (url : Url) (source : Option σ) :
    RequestHead where
  method
  url
  authorization := d.authorization
  headers := d.headers
  body := source.map fun s =>
    (if supply.isChunked s then .chunked else .length (supply.length s), supply.contentType s)

/-- One request and its response on a connection of their own. -/
def exchangeWith (peer : Peer) (head : RequestHead) (source : Option σ) (follow : Bool)
    (timeout : Nat) (d : Device) : Checked (Leg σ) := do
  let cells := d.cells.clear
  let done ← (converse supply (cut head) follow source).run.run
    { peer, cells, timeout, status := d.status, location := d.location, trace := [] }
  let r := done.2
  let device := { d with cells := r.cells, status := r.status, location := r.location }
  match done.1 with
  | .ok (step, rest) => pure ⟨.ok step, device, rest, r.trace ++ [.close]⟩
  | .error e => pure ⟨.error e, device, source, r.trace ++ [.close]⟩

/-- One attempt. -/
def attempt (method : Method) (address : String) (source : Option σ) (follow : Bool)
    (timeout : Nat) (d : Device) : Checked (Leg σ) :=
  match Url.parse address with
  | .error e => pure ⟨.error e, d, source, []⟩
  | .ok url =>
    if url.isHttp then
      match d.network with
      | some peer :: later => do
        let source := source.map supply.reset
        let leg ← exchangeWith supply cut peer (d.requestHead supply method url source) source follow
          timeout { d with network := later }
        pure { leg with events := .connect url.host url.port true :: leg.events }
      | none :: later =>
        pure ⟨.error .unreachable, { d with network := later }, source,
          [.connect url.host url.port false]⟩
      | [] => pure ⟨.error .unreachable, d, source, [.connect url.host url.port false]⟩
    else pure ⟨.error .malformedUrl, d, source, []⟩

/-- Attempts while the budget lasts. Each one takes from it, and goes to the address or else to the
location that the device keeps. -/
def Device.follow (method : Method) (address : String) (timeout budget : Nat)
    (redirected : Option String) (source : Option σ) (d : Device) : Checked Report := do
  let budget ← sub budget 1
  let leg ← attempt supply cut method (redirected.getD address) source (decide (0 < budget))
    timeout d
  match leg.result with
  | .error e => pure { result := .error e, device := leg.device, legs := [leg.events] }
  | .ok .complete => pure { result := .ok (), device := leg.device, legs := [leg.events] }
  | .ok (.redirect _) =>
    match leg.device.location with
    | none => pure { result := .error .protocol, device := leg.device, legs := [leg.events] }
    | some location => do
      let report ← leg.device |>.follow method address timeout budget (some location) leg.source
      pure { report with legs := leg.events :: report.legs }
partial_fixpoint

/-- A transaction. The sink is reset first. -/
def execute (method : Method) (address : String) (source : Option σ) (timeout : Nat) (d : Device) :
    Checked Report := do
  let report ←
    { d with status := 0 }.follow supply cut method address timeout d.attempts none source
  pure { report with opening := [.deliver .reset] }

end Program

/-! ## One conversation -/

theorem mimics_clear (x : Exchange) :
    Mimics clear x (.ok () { x with window := x.window.clear }) := by
  intro r h
  exact .ok ((does_get r).bind (does_set r _))
    ⟨h.peer, h.cells.clear, h.timeout, h.status, h.location, h.trace⟩

section Conversing

variable {σ : Type} {supply : Supply σ} {source : Option σ} {r : Rig} {x : Exchange}

/-- What a conversation comes to that sends these pieces and leaves this of the body. -/
def conversed (sent : List Bytes) (rest : Option σ) (follow : Bool) (x : Exchange) :
    Exchange.Outcome (Client.Step × Option σ) :=
  andThen (x.sendAll sent) fun _ y =>
    andThen (Client.readResponse follow { y with window := y.window.clear }) fun step z =>
      .ok (step, rest) z

/-- A conversation sends the pieces of its head and those of its body. What is known of the body
whatever is in the buffer is known of the one that is sent. -/
theorem follows_converse {good : List Bytes → Option σ → Prop} (parts : List Bytes) (follow : Bool)
    (h : r.Mirrors x) (hidle : x.window.clear = x.window)
    (hsends : ∀ buffer : Bytes, buffer.length = x.window.capacity →
      ∃ body rest, supply.Sends buffer source body rest ∧ good body rest) :
    ∃ body rest, good body rest ∧
      Follows (converse supply parts follow source) r
        (conversed (pieces x.window.capacity parts.flatten ++ body) rest follow x) := by
  have hhead : Follows (sendHead parts) r (x.sendAll (pieces x.window.capacity parts.flatten)) :=
    follows_sendHead h hidle
  have hwindow := (Exchange.sent_sendAll (pieces x.window.capacity parts.flatten) x).window
  unfold conversed
  cases hy : x.sendAll (pieces x.window.capacity parts.flatten) with
  | error e y =>
    obtain ⟨body, rest, -, hgood⟩ := hsends r.cells.bytes h.cells.size
    refine ⟨body, rest, hgood, ?_⟩
    rw [Exchange.sendAll_append, hy]
    exact (hy ▸ hhead).stop
  | ok u y =>
    rw [hy] at hhead hwindow
    cases hhead with
    | @ok _ s _ does hs =>
      have hwindow : y.window = x.window := hwindow
      obtain ⟨body, rest, hbody, hgood⟩ := hsends s.cells.bytes (hwindow ▸ hs.cells.size)
      refine ⟨body, rest, hgood, ?_⟩
      rw [Exchange.sendAll_append, hy]
      refine .step does ?_
      have hsent := follows_sendBody hbody hs (hwindow ▸ hidle)
      show Follows _ _ (andThen (y.sendAll body) _)
      cases hz : y.sendAll body with
      | error e z =>
        rw [hz] at hsent
        exact hsent.stop
      | ok u z =>
        rw [hz] at hsent
        refine hsent.goOn fun s hs => (mimics_clear z s hs).goOn fun s hs => ?_
        exact (mimics_readResponse follow _ s hs).bind fun step w _ s hs => .pure hs _

/-- A conversation waits no more often than it receives bytes, but for once. -/
theorem waits_conversed (sent : List Bytes) (rest : Option σ) (follow : Bool) (hx : x.trace = []) :
    waits (conversed sent rest follow x).exchange.trace
      ≤ received (conversed sent rest follow x).exchange.trace + 1 := by
  obtain ⟨sends, hsends, hkind⟩ := (Exchange.sent_sendAll sent x).trace
  have hnone : ∀ e ∈ sends, ¬ e.IsReceive := by
    intro e he
    obtain ⟨bytes, accepted, rfl⟩ := hkind e he
    exact id
  have hspares : x.Spares (conversed sent rest follow x) := by
    refine Exchange.Spares.andThen (.of_gains (.of_trace hsends hnone)) fun u y _ => ?_
    have hresponse := Exchange.spares_readResponse follow { y with window := y.window.clear }
    exact hresponse.andThen fun step z _ => .of_gains (.refl z)
  exact hspares.waits_le hx

/-- A location is followed only if it is to be, and it is the one that is kept. -/
theorem followed_of_readHeaders {follow : Bool} {block : HeaderBlock} {x y : Exchange}
    {location : String} (h : x.readHeaders follow block = .ok (.redirect location) y) :
    follow = true ∧ y.location = some location := by
  fun_induction Exchange.readHeaders follow block x with
  | case1 block x e z hz => cases h
  | case2 block x z hz => cases h
  | case3 block x n z hz hn e hb => cases h
  | case4 block x n z hz hn later hb location' hlocation hfollow =>
    cases h
    exact ⟨hfollow, rfl⟩
  | case5 block x n z hz hn later hb hlocation ih => exact ih h

/-- A location that is followed is the one that is stored, so the next attempt finds one there. -/
theorem followed_of_readResponse {follow : Bool} {x y : Exchange} {location : String}
    (h : Client.readResponse follow x = .ok (.redirect location) y) :
    follow = true ∧ y.location = some location := by
  rw [Exchange.readResponse_eq] at h
  obtain ⟨status, z, -, hjudge⟩ := ok_of_andThen h
  unfold Exchange.judge at hjudge
  split at hjudge
  · obtain ⟨next, w, hw, hfinish⟩ := ok_of_andThen hjudge
    cases next with
    | redirect location' =>
      cases hfinish
      exact followed_of_readHeaders hw
    | body framing =>
      obtain ⟨u, v, -, hdone⟩ := ok_of_andThen hfinish
      cases hdone
  · cases hjudge

/-- A conversation that leads to a location keeps it, and leaves what it was told to. -/
theorem followed_of_conversed {sent : List Bytes} {rest left : Option σ} {follow : Bool}
    {x y : Exchange} {location : String}
    (h : conversed sent rest follow x = .ok (.redirect location, left) y) :
    (follow = true ∧ y.location = some location) ∧ left = rest ∧
      y.window.capacity = x.window.capacity := by
  obtain ⟨u, z, hz, hresponse⟩ := ok_of_andThen h
  obtain ⟨step, w, hw, hdone⟩ := ok_of_andThen hresponse
  have hsent := Exchange.Outcome.exchange_of_ok hz ▸ Exchange.sent_sendAll sent x
  cases hdone
  exact ⟨followed_of_readResponse hw, rfl,
    (Exchange.readResponse_of_redirect hw).2.trans hsent.capacity⟩

/-- What a conversation of the client comes to, with what is left of its source told apart. -/
def tellSource : Exchange.Outcome Client.Step → Exchange.Outcome (Client.Step × Option Source)
  | .ok step z => .ok (step, z.source) (z.holding none)
  | .error e z => .error e (z.holding none)

/-- A conversation that sends what the client sends comes to what that of the client comes to. -/
theorem conversed_requestPieces {head : RequestHead} {follow : Bool} {rest : Option Source}
    (hrest : ∀ y z : Exchange, y.source = x.source → y.window.capacity = x.window.capacity →
      y.sendBody = .ok () z → z.source = rest) :
    conversed (x.requestPieces head) rest follow (x.holding none)
      = tellSource (Client.converse head follow x) := by
  rw [conversed, ← Exchange.sendRequest_eq_sendAll, Exchange.converse_eq]
  cases hy : x.sendRequest head with
  | error e y => rfl
  | ok u y =>
    obtain ⟨v, w, hw, hbody⟩ := ok_of_andThen hy
    have hsource : y.source = rest := by
      refine hrest w y ?_ ?_ hbody
      · exact Exchange.Outcome.exchange_of_ok hw ▸ Exchange.source_sendAll _ x
      · exact (Exchange.Outcome.exchange_of_ok hw ▸ Exchange.sent_sendAll _ x).capacity
    have hview := (Exchange.unread_holding none).readResponse follow
      { y with window := y.window.clear }
    have hkept := Exchange.source_readResponse follow { y with window := y.window.clear }
    show andThen (Client.readResponse follow
        (Exchange.holding none { y with window := y.window.clear })) _
      = tellSource (Client.readResponse follow { y with window := y.window.clear })
    rw [hview]
    cases hz : Client.readResponse follow { y with window := y.window.clear } with
    | error e z => rfl
    | ok step z =>
      rw [hz] at hkept
      have hsource : z.source = rest := hkept.trans hsource
      rw [← hsource]
      rfl

end Conversing

/-! ## One attempt -/

section Attempting

variable {σ : Type} {supply : Supply σ} {cut : RequestHead → List Bytes} {d : Device} {c : Client}

/-- The leg is what a conversation leaves of this client. -/
structure Leg.Tells (l : Leg σ) (c : Client)
    (o : Exchange.Outcome (Client.Step × Option σ)) : Prop where
  result : l.result = o.result.map Prod.fst
  device : l.device.Mirrors (c.leave o.exchange)
  source : ∀ step rest y, o = .ok (step, rest) y → l.source = rest
  events : l.events = o.exchange.trace ++ [.close]

/-- A device starts an exchange as the client does. -/
theorem Device.Mirrors.start (h : d.Mirrors c) (peer : Peer) (source : Option Source)
    (timeout : Nat) :
    Rig.Mirrors ⟨peer, d.cells.clear, timeout, d.status, d.location, []⟩
      (c.startExchange peer source timeout) :=
  ⟨rfl, h.cells.clear, rfl, h.status, h.location, rfl⟩

/-- A device and its client get the same connections. -/
theorem Device.Mirrors.later (h : d.Mirrors c) (later : List (Option Peer)) :
    Device.Mirrors { d with network := later } { c with network := later } :=
  ⟨h.cells, rfl, h.authorization, h.headers, h.attempts, h.status, h.location⟩

/-- A conversation that comes to something leaves a leg. -/
theorem exchangeWith_of_follows {peer : Peer} {head : RequestHead} {source : Option σ}
    {follow : Bool} {timeout : Nat} {o : Exchange.Outcome (Client.Step × Option σ)}
    (hd : d.Mirrors c)
    (h : Follows (converse supply (cut head) follow source)
      ⟨peer, d.cells.clear, timeout, d.status, d.location, []⟩ o) :
    ∃ l, exchangeWith supply cut peer head source follow timeout d = pure l ∧ l.Tells c o := by
  have hdevice {s : Rig} {y : Exchange} (hs : s.Mirrors y) :
      Device.Mirrors { d with cells := s.cells, status := s.status, location := s.location }
        (c.leave y) :=
    ⟨hs.cells, hd.network, hd.authorization, hd.headers, hd.attempts, hs.status, hs.location⟩
  unfold exchangeWith
  cases h with
  | @ok a s y does mirrors =>
    unfold Does at does
    dsimp only
    rw [does, pure_bind]
    refine ⟨_, rfl, rfl, hdevice mirrors, ?_, congrArg (· ++ [.close]) mirrors.trace⟩
    rintro step rest _ ⟨⟩
    rfl
  | @error e s y does mirrors =>
    unfold Does at does
    dsimp only
    rw [does, pure_bind]
    refine ⟨_, rfl, rfl, hdevice mirrors, ?_, congrArg (· ++ [.close]) mirrors.trace⟩
    intro step rest y h
    cases h

/-- A leg leads on to a location: there is a budget for it, the device keeps it, and is a client
with a buffer of the same size, and what is left of the body comes from it. -/
structure Leg.Leads (l : Leg σ) (supply : Supply σ) (c : Client) (source : Option σ) (follow : Bool)
    (location : String) : Prop where
  follow : follow = true
  location : l.device.location = some location
  device : ∃ later : Client, l.device.Mirrors later ∧ later.window.capacity = c.window.capacity
  source : ∀ t ∈ l.source, ∃ s ∈ source, supply.Reaches s t

/-- A leg waits no more often than it receives bytes, but for once, and leads on where it says. -/
structure Leg.Sound (l : Leg σ) (supply : Supply σ) (c : Client) (source : Option σ)
    (follow : Bool) : Prop where
  waits : waits l.events ≤ received l.events + 1
  leads : ∀ location, l.result = .ok (.redirect location) →
    l.Leads supply c source follow location

/-- An exchange comes to a leg, whatever the body is read from, if its reads end. There is no other
condition on what is read. -/
theorem exists_exchangeWith (cut : RequestHead → List Bytes) (peer : Peer) (head : RequestHead)
    (follow : Bool) (timeout : Nat) {source : Option σ} (hd : d.Mirrors c)
    (hsource : ∀ s ∈ source, supply.Exhaustible c.window.capacity s) :
    ∃ l, exchangeWith supply cut peer head source follow timeout d = pure l ∧
      l.Sound supply c source follow := by
  have hsends (buffer : Bytes) (hbuffer : buffer.length = c.window.capacity) :
      ∃ body rest, supply.Sends buffer source body rest ∧
        ∀ t ∈ rest, ∃ s ∈ source, supply.Reaches s t := by
    obtain ⟨body, rest, hbody⟩ := Supply.exists_sends hsource hbuffer
    exact ⟨body, rest, hbody, hbody.reaches⟩
  obtain ⟨body, rest, hrest, hfollows⟩ :=
    follows_converse (cut head) follow (hd.start peer none timeout) rfl hsends
  obtain ⟨l, hl, htells⟩ := exchangeWith_of_follows hd hfollows
  refine ⟨l, hl, ?_, fun location hresult => ?_⟩
  · rw [htells.events, waits_append, received_append]
    exact waits_conversed _ rest follow rfl
  · rw [htells.result] at hresult
    generalize ho : conversed _ rest follow _ = o at htells hresult
    cases o with
    | error e y => cases hresult
    | ok a y =>
      obtain ⟨step, left⟩ := a
      obtain rfl : step = .redirect location := Except.ok.inj hresult
      obtain ⟨⟨hfollow, hlocation⟩, hleft, hcapacity⟩ := followed_of_conversed ho
      have hdevice := htells.device
      refine ⟨hfollow, hdevice.location.trans hlocation, ⟨_, hdevice, hcapacity⟩, ?_⟩
      rw [htells.source _ left y rfl, hleft]
      exact hrest

/-- The leg is what this attempt of a client leaves. -/
structure Leg.Mirrors (l : Leg Source) (t : Transaction Client.Step) : Prop where
  result : l.result = t.result
  device : l.device.Mirrors t.client
  source : ∀ step, t.result = .ok step → l.source = t.source
  events : l.events = t.events

/-- On a source of a client an exchange comes to that of the client, event for event. -/
theorem exchangeWith_ofSource (hcut : ∀ head, (cut head).flatten = Utf8.ofString head.text)
    (peer : Peer) (head : RequestHead) (source : Option Source) (follow : Bool) (timeout : Nat)
    (hd : d.Mirrors c) :
    ∃ l, exchangeWith Supply.ofSource cut peer head source follow timeout d = pure l ∧
      l.Mirrors (c.exchangeWith peer head source follow timeout) := by
  have hsends (buffer : Bytes) (hbuffer : buffer.length = c.window.capacity) :
      ∃ body rest, Supply.ofSource.Sends buffer source body rest ∧
        (body = (source.map (Source.sent c.window.capacity)).getD [] ∧
          ∀ y z : Exchange, y.source = source → y.window.capacity = c.window.capacity →
            y.sendBody = .ok () z → z.source = rest) := by
    obtain ⟨rest, hbody, hrest⟩ := sends_ofSource hbuffer source
    exact ⟨_, rest, hbody, rfl, hrest⟩
  obtain ⟨body, rest, ⟨hbody, hrest⟩, hfollows⟩ :=
    follows_converse (cut head) follow (hd.start peer none timeout) rfl hsends
  have htold : conversed (pieces c.window.capacity (cut head).flatten ++ body) rest follow
      (c.startExchange peer none timeout)
      = tellSource (Client.converse head follow (c.startExchange peer source timeout)) := by
    rw [hcut, hbody]
    exact conversed_requestPieces (x := c.startExchange peer source timeout) hrest
  obtain ⟨l, hl, htells⟩ := exchangeWith_of_follows hd (htold ▸ hfollows)
  refine ⟨l, hl, ?_⟩
  unfold Client.exchangeWith
  cases ho : Client.converse head follow (c.startExchange peer source timeout) with
  | error e z =>
    rw [ho] at htells
    exact ⟨htells.result, htells.device, nofun, htells.events⟩
  | ok step z =>
    rw [ho] at htells
    exact ⟨htells.result, htells.device, fun _ _ => htells.source step z.source _ rfl, htells.events⟩

/-- A reset leaves what is exhaustible. -/
theorem exhaustible_reset {size : Nat} {source : Option σ}
    (h : ∀ s ∈ source, supply.Exhaustible size s) :
    ∀ s ∈ source.map supply.reset, supply.Exhaustible size s := by
  intro s hs t ht
  obtain ⟨s, hmem, rfl⟩ := Option.map_eq_some_iff.1 hs
  exact h s hmem t ((Supply.Reaches.reset .refl).trans ht)

/-- A leg that did nothing on a connection. -/
theorem Leg.sound_of_error {source : Option σ} {follow : Bool} {l : Leg σ} {e : TransferError}
    (hresult : l.result = .error e) (hevents : waits l.events = 0) :
    l.Sound supply c source follow := by
  refine ⟨by rw [hevents]; exact Nat.zero_le _, fun location h => ?_⟩
  cases hresult.symm.trans h

/-- An attempt comes to a leg, and the client that it leaves is again one that a next attempt can be
made with. -/
theorem exists_attempt (cut : RequestHead → List Bytes) (method : Method) (address : String)
    (follow : Bool) (timeout : Nat) {source : Option σ} (hd : d.Mirrors c)
    (hsource : ∀ s ∈ source, supply.Exhaustible c.window.capacity s) :
    ∃ l, attempt supply cut method address source follow timeout d = pure l ∧
      l.Sound supply c source follow := by
  unfold attempt
  cases Url.parse address with
  | error e => exact ⟨_, rfl, Leg.sound_of_error rfl rfl⟩
  | ok url =>
    dsimp only
    split
    · cases d.network with
      | nil => exact ⟨_, rfl, Leg.sound_of_error rfl rfl⟩
      | cons peer later =>
        cases peer with
        | none => exact ⟨_, rfl, Leg.sound_of_error rfl rfl⟩
        | some peer =>
          obtain ⟨l, hl, hsound⟩ := exists_exchangeWith cut peer
            (d.requestHead supply method url (source.map supply.reset)) follow timeout
            (hd.later later)
            (exhaustible_reset hsource)
          dsimp only
          rw [hl, pure_bind]
          refine ⟨_, rfl, ?_, fun location hresult => ?_⟩
          · show waits ([.connect url.host url.port true] ++ l.events)
              ≤ received ([.connect url.host url.port true] ++ l.events) + 1
            rw [waits_append, received_append]
            have hwaits : waits [.connect url.host url.port true] = 0 := rfl
            have := hsound.waits
            omega
          · have hleads := hsound.leads location hresult
            refine ⟨hleads.follow, hleads.location, hleads.device, fun t ht => ?_⟩
            obtain ⟨s, hs, hreach⟩ := hleads.source t ht
            obtain ⟨s, hmem, rfl⟩ := Option.map_eq_some_iff.1 hs
            exact ⟨s, hmem, (Supply.Reaches.reset .refl).trans hreach⟩
    · exact ⟨_, rfl, Leg.sound_of_error rfl rfl⟩

/-- On a source of a client an attempt comes to that of the client, also where there is no
connection. -/
theorem attempt_ofSource (hcut : ∀ head, (cut head).flatten = Utf8.ofString head.text)
    (method : Method) (address : String) (source : Option Source) (follow : Bool) (timeout : Nat)
    (hd : d.Mirrors c) :
    ∃ l, attempt Supply.ofSource cut method address source follow timeout d = pure l ∧
      l.Mirrors (c.attempt method address source follow timeout) := by
  unfold attempt Client.attempt
  cases Url.parse address with
  | error e => exact ⟨_, rfl, rfl, hd, nofun, rfl⟩
  | ok url =>
    dsimp only
    by_cases hhttp : url.isHttp = true
    · rw [if_pos hhttp, if_pos hhttp, hd.network]
      cases c.network with
      | nil => exact ⟨_, rfl, rfl, hd, nofun, rfl⟩
      | cons peer later =>
        cases peer with
        | none => exact ⟨_, rfl, rfl, hd.later later, nofun, rfl⟩
        | some peer =>
          have hhead : d.requestHead Supply.ofSource method url (source.map Source.reset)
              = c.requestHead method url (source.map Source.reset) := by
            unfold Device.requestHead Client.requestHead
            rw [hd.authorization, hd.headers]
            rfl
          obtain ⟨l, hl, hmirrors⟩ := exchangeWith_ofSource hcut peer
            (c.requestHead method url (source.map Source.reset)) (source.map Source.reset) follow
            timeout (hd.later later)
          have hreset : source.map Supply.ofSource.reset = source.map Source.reset := rfl
          dsimp only
          rw [hreset, hhead, hl, pure_bind]
          exact ⟨_, rfl, hmirrors.result, hmirrors.device, hmirrors.source,
            congrArg (_ :: ·) hmirrors.events⟩
    · rw [if_neg hhttp, if_neg hhttp]
      exact ⟨_, rfl, rfl, hd, nofun, rfl⟩

end Attempting

/-! ## A whole transaction -/

section Transacting

variable {σ : Type} {supply : Supply σ} {cut : RequestHead → List Bytes} {d : Device} {c : Client}

/-- No attempt waits more often than it receives bytes, but for once, and there are no more attempts
than the budget allows. -/
structure Report.Sound (r : Report) (budget : Nat) : Prop where
  length : r.legs.length ≤ budget
  waits : ∀ leg ∈ r.legs, waits leg ≤ received leg + 1

theorem sub_one (n : Nat) : sub (n + 1) 1 = pure n :=
  sub_eq (Nat.succ_pos n)

/-- From an attempt on a transaction comes to a report. The induction is over the budget, which
every location that is followed takes one of. -/
theorem exists_follow (cut : RequestHead → List Bytes) (method : Method) (address : String)
    (timeout : Nat) {budget : Nat} (hbudget : 0 < budget) (redirected : Option String)
    {source : Option σ} (hd : d.Mirrors c)
    (hsource : ∀ s ∈ source, supply.Exhaustible c.window.capacity s) :
    ∃ report, d.follow supply cut method address timeout budget redirected source = pure report ∧
      report.Sound budget := by
  induction budget generalizing redirected source d c with
  | zero => exact absurd hbudget (Nat.lt_irrefl 0)
  | succ budget ih =>
    obtain ⟨l, hl, hsound⟩ := exists_attempt cut method (redirected.getD address)
      (decide (0 < budget)) timeout hd hsource
    have hone (result : Except TransferError Unit) :
        Report.Sound { result, device := l.device, legs := [l.events] } (budget + 1) :=
      ⟨Nat.succ_le_succ (Nat.zero_le _), List.forall_mem_singleton.2 hsound.waits⟩
    rw [Device.follow, sub_one, pure_bind, hl, pure_bind]
    cases hresult : l.result with
    | error e => exact ⟨_, rfl, hone _⟩
    | ok step =>
      cases step with
      | complete => exact ⟨_, rfl, hone _⟩
      | redirect location =>
        have hleads := hsound.leads location hresult
        obtain ⟨later, hlater, hcapacity⟩ := hleads.device
        have hrest : ∀ t ∈ l.source, supply.Exhaustible later.window.capacity t := by
          intro t ht u hu
          obtain ⟨s, hs, hreach⟩ := hleads.source t ht
          exact hcapacity ▸ hsource s hs u (hreach.trans hu)
        obtain ⟨report, hreport, hlength, hwaits⟩ :=
          ih (of_decide_eq_true hleads.follow) (some location) hlater hrest
        dsimp only
        rw [hleads.location]
        dsimp only
        rw [hreport, pure_bind]
        exact ⟨_, rfl, Nat.succ_le_succ hlength, List.forall_mem_cons.2 ⟨hsound.waits, hwaits⟩⟩

/-- The report is what this transaction of a client leaves. -/
structure Report.Mirrors (r : Report) (t : Transaction Unit) : Prop where
  result : r.result = t.result
  device : r.device.Mirrors t.client
  events : r.events = t.events

/-- On a source of a client a transaction comes to that of the client, from any of its attempts
on. -/
theorem follow_ofSource (hcut : ∀ head, (cut head).flatten = Utf8.ofString head.text)
    (method : Method) (address : String) (timeout redirects : Nat) (redirected : Option String)
    (source : Option Source) (hd : d.Mirrors c) :
    ∃ report,
      d.follow Supply.ofSource cut method address timeout (redirects + 1) redirected source
        = pure report ∧ report.opening = [] ∧
      report.Mirrors (c.follow method timeout redirects (redirected.getD address) source) := by
  have hattempt (redirects : Nat) (redirected : Option String) (source : Option Source) {d : Device}
      {c : Client} (hd : d.Mirrors c) :
      ∃ l, attempt Supply.ofSource cut method (redirected.getD address) source
          (decide (0 < redirects)) timeout d = pure l ∧
        l.Sound Supply.ofSource c source (decide (0 < redirects)) ∧
        l.Mirrors
          (c.attempt method (redirected.getD address) source (decide (0 < redirects)) timeout) := by
    obtain ⟨l, hl, hsound⟩ := exists_attempt cut method (redirected.getD address)
      (decide (0 < redirects)) timeout hd fun s (_ : s ∈ source) => exhaustible_ofSource s
    obtain ⟨l', hl', hmirrors⟩ := attempt_ofSource hcut method (redirected.getD address) source
      (decide (0 < redirects)) timeout hd
    obtain rfl : l = l' := Except.ok.inj (Option.some.inj (hl.symm.trans hl'))
    exact ⟨l, hl, hsound, hmirrors⟩
  have hlast {l : Leg Source} {t : Transaction Client.Step} (h : l.Mirrors t)
      (result : Except TransferError Unit) :
      Report.Mirrors { result, device := l.device, legs := [l.events] }
        ⟨result, t.client, t.source, t.events⟩ :=
    ⟨rfl, h.device, (List.append_nil l.events).trans h.events⟩
  induction redirects generalizing redirected source d c with
  | zero =>
    obtain ⟨l, hl, hsound, hmirrors⟩ := hattempt 0 redirected source hd
    rw [Device.follow, sub_one, pure_bind, hl, pure_bind, Client.follow]
    rw [decide_eq_false (Nat.lt_irrefl 0)] at hmirrors
    generalize c.attempt method (redirected.getD address) source false timeout = t at hmirrors ⊢
    rw [← hmirrors.result]
    cases hresult : l.result with
    | error e => exact ⟨_, rfl, rfl, hlast hmirrors _⟩
    | ok step =>
      cases step with
      | complete => exact ⟨_, rfl, rfl, hlast hmirrors _⟩
      | redirect location => cases of_decide_eq_true (hsound.leads location hresult).follow
  | succ redirects ih =>
    obtain ⟨l, hl, hsound, hmirrors⟩ := hattempt (redirects + 1) redirected source hd
    rw [Device.follow, sub_one, pure_bind, hl, pure_bind, Client.follow]
    rw [decide_eq_true (Nat.succ_pos redirects)] at hmirrors
    generalize c.attempt method (redirected.getD address) source true timeout = t at hmirrors ⊢
    rw [← hmirrors.result]
    cases hresult : l.result with
    | error e => exact ⟨_, rfl, rfl, hlast hmirrors _⟩
    | ok step =>
      cases step with
      | complete => exact ⟨_, rfl, rfl, hlast hmirrors _⟩
      | redirect location =>
        have hsource := hmirrors.source _ (hmirrors.result.symm.trans hresult)
        obtain ⟨report, hreport, hopening, hrest⟩ := ih (some location) l.source hmirrors.device
        dsimp only
        rw [(hsound.leads location hresult).location]
        dsimp only
        rw [hreport, pure_bind]
        refine ⟨_, rfl, hopening, ?_⟩
        rw [hsource] at hrest
        refine ⟨hrest.result, hrest.device, ?_⟩
        have hevents := hrest.events
        rw [Report.events, hopening, List.nil_append] at hevents
        show report.opening ++ (l.events ++ report.legs.flatten) = t.events ++ _
        rw [hopening, hevents, hmirrors.events]
        rfl

/-- A device and its client forget the last status in front of a transaction. -/
theorem Device.Mirrors.unanswered (h : d.Mirrors c) :
    Device.Mirrors { d with status := 0 } { c with status := 0 } :=
  ⟨h.cells, h.network, h.authorization, h.headers, h.attempts, rfl, h.location⟩

/-- A transaction comes to a report. -/
theorem exists_execute (cut : RequestHead → List Bytes) (method : Method) (address : String)
    (timeout : Nat) {source : Option σ} (hd : d.Mirrors c) (hbudget : 0 < c.attempts)
    (hsource : ∀ s ∈ source, supply.Exhaustible c.window.capacity s) :
    ∃ report, execute supply cut method address source timeout d = pure report ∧
      report.Sound c.attempts := by
  have hattempts : 0 < d.attempts := hd.attempts ▸ hbudget
  obtain ⟨report, hreport, hlength, hwaits⟩ :=
    exists_follow cut method address timeout hattempts none hd.unanswered hsource
  unfold execute
  rw [hreport, pure_bind]
  exact ⟨_, rfl, hd.attempts ▸ hlength, hwaits⟩

/-- On a source of a client a transaction comes to that of the client, with the sink reset in front
of it. -/
theorem execute_ofSource (hcut : ∀ head, (cut head).flatten = Utf8.ofString head.text)
    (method : Method) (address : String) (timeout : Nat) (source : Option Source)
    (hd : d.Mirrors c) (hbudget : 0 < c.attempts) :
    ∃ report, execute Supply.ofSource cut method address source timeout d = pure report ∧
      report.Mirrors (c.execute method address source timeout) := by
  have hattempts : d.attempts = c.attempts - 1 + 1 := by
    rw [hd.attempts, Nat.sub_add_cancel hbudget]
  obtain ⟨report, hreport, hopening, hmirrors⟩ :=
    follow_ofSource hcut method address timeout (c.attempts - 1) none source hd.unanswered
  have hreport := (congrArg (Device.follow Supply.ofSource cut method address timeout · none source
    { d with status := 0 }) hattempts).trans hreport
  have hevents := hmirrors.events
  rw [Report.events, hopening, List.nil_append] at hevents
  unfold execute Client.execute
  rw [hreport, pure_bind]
  exact ⟨_, rfl, hmirrors.result, hmirrors.device, congrArg ([Event.deliver .reset] ++ ·) hevents⟩

/-- A transaction on a device comes to an end, and nothing in it traps: no index lies behind the end
of an array, no difference is below zero, and no sum or product is too large for a word. That needs
nothing of what the body is read from but that its reads end if it declares no length. There are no
more attempts than the budget allows, and in each one no more receives than bytes received, but for
one. On a source of a client the transaction is that of the client. -/
theorem execute_comes_to_report (hcut : ∀ head, (cut head).flatten = Utf8.ofString head.text)
    (method : Method) (address : String) (timeout : Nat) (hd : d.Mirrors c)
    (hbudget : 0 < c.attempts) :
    (∀ {σ : Type} (supply : Supply σ) (source : Option σ),
      (∀ s ∈ source, supply.Exhaustible c.window.capacity s) →
      ∃ report, execute supply cut method address source timeout d = pure report ∧
        report.Sound c.attempts) ∧
    ∀ source : Option Source,
      ∃ report, execute Supply.ofSource cut method address source timeout d = pure report ∧
        report.Sound c.attempts ∧ report.Mirrors (c.execute method address source timeout) := by
  refine ⟨fun supply source => exists_execute cut method address timeout hd hbudget, ?_⟩
  intro source
  obtain ⟨report, hreport, hsound⟩ := exists_execute cut method address timeout hd hbudget
    fun s (_ : s ∈ source) => exhaustible_ofSource s
  obtain ⟨report', hreport', hmirrors⟩ :=
    execute_ofSource hcut method address timeout source hd hbudget
  obtain rfl : report = report' := Except.ok.inj (Option.some.inj (hreport.symm.trans hreport'))
  exact ⟨report, hreport, hsound, hmirrors⟩

/-- A body that never ends is sent as far as it is declared. A stream that ends behind one byte takes
two receives. -/
theorem execute_comes_to_report_of_endless :
    let supply : Supply Unit :=
      { reset := id
        isChunked := fun _ => false
        length := fun _ => 9
        contentType := fun _ => none
        read := fun buffer s => (buffer, buffer.length + 1, s)
        length_read := fun _ _ => rfl }
    let c := { Client.new 4 with network := [some { arrivals := [.data [72], .ended] }] }
    let d : Device := ⟨⟨[0, 0, 0, 0], 0, 0⟩, c.network, none, [], 1, 0, none⟩
    let cut (head : RequestHead) : List Bytes := [Utf8.ofString head.text]
    (∃ report, execute supply cut .post "http://a/" (some ()) 1000 d = pure report ∧
      report.Sound 1) ∧
    ∃ report, execute Supply.ofSource cut .get "http://a/" none 1000 d = pure report ∧
      waits report.events = 2 ∧ received report.events = 1 := by
  intro supply c d cut
  have hcut (head : RequestHead) : (cut head).flatten = Utf8.ofString head.text :=
    List.append_nil _
  have hd : d.Mirrors c :=
    ⟨⟨rfl, by decide, rfl, rfl, rfl⟩, rfl, rfl, rfl, rfl, rfl, rfl⟩
  obtain ⟨hends, -⟩ := execute_comes_to_report hcut .post "http://a/" 1000 hd (by decide)
  obtain ⟨-, hsame⟩ := execute_comes_to_report hcut .get "http://a/" 1000 hd (by decide)
  obtain ⟨report, hreport, -, hmirrors⟩ := hsame none
  refine ⟨hends supply (some ()) fun _ _ t _ ht => ?_, report, hreport, ?_⟩
  · cases ht
  · rw [hmirrors.events]
    decide +kernel

end Transacting

end DeviceHttp.Machine
