import DeviceHttp.Proofs.Transfer.Connections
import DeviceHttp.Proofs.Transfer.Controller

/-!
# Which redirects are followed

A transaction seen from outside is a list of attempts, its legs. `Route` says how they hang together:
where each of them goes, which responses are followed, and what the client remembers behind them.
Nothing in it depends on the inside of an attempt; all is told by the addresses and by bytes. These
are the bytes that were received, whatever the peers do, and as well all that a peer sends which takes
the request and goes on up to the end of its stream (`Leg.ToldBy`). So a response is not followed only
because of what happened to be read of it.
-/

namespace DeviceHttp

open Window (crlf)

/-- Host and port of a connection that is asked for. -/
def Event.target? : Event → Option (String × UInt16)
  | .connect host port _ => some (host, port)
  | _ => none

/-- The connections that were asked for, in order. -/
def connects (events : List Event) : List (String × UInt16) :=
  events.filterMap Event.target?

theorem connects_append (xs ys : List Event) : connects (xs ++ ys) = connects xs ++ connects ys :=
  List.filterMap_append

/-- What is sent asks for no connection. -/
theorem connects_of_sends {events : List Event}
    (h : ∀ e ∈ events, ∃ bytes timeout accepted, e = .send bytes timeout accepted) :
    connects events = [] := by
  apply List.filterMap_eq_nil_iff.2
  intro e he
  obtain ⟨bytes, timeout, accepted, rfl⟩ := h e he
  rfl

/-- What a response does asks for no connection. -/
theorem connects_of_replies {events : List Event} (h : ∀ e ∈ events, e.IsReply) :
    connects events = [] := by
  apply List.filterMap_eq_nil_iff.2
  intro e he
  have := h e he
  cases e with
  | receive room minimum timeout bytes => rfl
  | deliver call => rfl
  | _ => exact this.elim

/-- What the location is behind a response: the one that is followed, or else the last one in the
header lines that were read, or else what it was before. -/
inductive LocationAfter (capacity : Nat) (follow : Bool) (bytes : Bytes) (before : Option String) :
    Option String → Prop
  | followed {location : String} (allowed : follow = true)
    (leads : LeadsTo capacity bytes location) :
    LocationAfter capacity follow bytes before (some location)
  | read {code : Nat} {ls : List Bytes} {block : HeaderBlock} {rest : Bytes}
    (opens : Opens capacity bytes code ls block rest) (ends : block.Ends capacity rest)
    (stay : follow = true → block.location = none) :
    LocationAfter capacity follow bytes before (block.location.or before)
  | kept (unopened : ∀ code ls block rest, ¬ Opens capacity bytes code ls block rest) :
    LocationAfter capacity follow bytes before before

/-- What a response with this block of headers and these bytes behind it is to the sink. -/
inductive Decoded (capacity : Nat) (block : HeaderBlock) (bytes : Bytes) (succeeds : Prop) :
    List Delivery → Prop
  | handed {content : Bytes} {whole : Bool} {slices : List Bytes}
    (framed : Content capacity bytes block.framing content whole)
    (cut : slices.flatten = content) (result : succeeds ↔ whole = true) :
    Decoded capacity block bytes succeeds
      (block.announcement ++ slices.map .write ++ block.framing.endMark whole)

namespace Visit

variable {v : Visit} {vs : List Visit} {method : Method} {timeout : Nat} {i : Nat}

variable {bytes : Bytes}

/-- The location that is kept is the one the bytes name, wherever the response ended: the one that
is followed, the one in the headers of a body, or the one from before if there is none. -/
theorem Ended.locationAfter {t : Transaction Client.Step} (h : v.Ended bytes t) :
    LocationAfter v.capacity v.follows bytes v.client.location t.client.location := by
  cases h with
  | refused result unopened calls location =>
    rw [location]
    exact .kept unopened
  | fault result opens stay stuck calls location =>
    rw [location]
    exact .read opens (.inr stuck) stay
  | redirect result followed leads calls location_eq =>
    rw [location_eq]
    exact .followed followed leads
  | body result opens stay framed cut nonempty narrow calls location =>
    rw [location]
    exact .read opens (.inl ⟨_, rfl⟩) stay

/-- A response that is read to the end of its headers, and whose location is not followed, is
decoded. -/
theorem Ended.decoded {t : Transaction Client.Step} {code : Nat} {ls : List Bytes}
    {block : HeaderBlock} {rest : Bytes} {succeeds : Prop} (hended : v.Ended bytes t)
    (hends : ∀ location, t.result ≠ .ok (.redirect location))
    (hsucceeds : succeeds ↔ t.result = .ok .complete)
    (h : Opens v.capacity bytes code ls block (crlf ++ rest)) :
    Decoded v.capacity block rest succeeds t.deliveries := by
  cases hended with
  | refused result unopened => exact absurd h (unopened _ _ _ _)
  | fault result opens stay stuck =>
    obtain ⟨-, rfl⟩ := h.unique opens (.inl ⟨rest, rfl⟩) (.inr stuck)
    obtain ⟨line, hline, -, -⟩ := h.status
    exact absurd rfl (stuck [] rest rfl hline.empty).1
  | redirect result => exact absurd result (hends _)
  | body result opens stay framed cut nonempty narrow calls =>
    obtain ⟨rfl, hrest⟩ := h.unique opens (.inl ⟨rest, rfl⟩) (.inl ⟨_, rfl⟩)
    obtain rfl := List.append_cancel_left hrest
    rw [calls]
    exact .handed framed cut (hsucceeds.trans (complete_iff_whole result))

/-- These bytes decide what becomes of the attempt at a visit. -/
structure Decides (method : Method) (timeout : Nat) (v : Visit) (bytes : Bytes) : Prop where
  ended : v.Ended bytes (v.attempt method timeout)
  status : StatusAfter v.capacity bytes v.client.status
    (v.attempt method timeout).client.status
  follows : ∀ location, (v.attempt method timeout).result = .ok (.redirect location) ↔
    v.follows = true ∧ LeadsTo v.capacity bytes location

/-- Whatever the peer does, the bytes that were received decide. -/
theorem decides_heard (method : Method) (timeout : Nat) (v : Visit) :
    v.Decides method timeout (heard (v.attempt method timeout).events) :=
  ⟨v.attempt_ended method timeout, v.statusAfter_attempt method timeout,
    fun _ => attempt_follows_iff⟩

/-- All that a peer sends decides, if it takes the request and goes on up to the end of its
stream. -/
theorem decides_stream {url : Url} {peer : Peer} (hurl : Url.parse v.address = .ok url)
    (hhttp : url.isHttp = true) (hnetwork : v.client.network.head? = some (some peer))
    (hopen : peer.Open) (hsteady : peer.Steady) : v.Decides method timeout peer.stream := by
  obtain ⟨x, hbegun, htold, hconcludes⟩ : ∃ x, Exchange.Begun v.client x ∧
      x.ToldBy v.follows peer.stream ∧
      Concludes (Client.readResponse v.follows x) (v.attempt method timeout) :=
    attempt_of_open hurl hhttp hnetwork hopen hsteady
  exact ⟨ended_of_response hbegun htold hconcludes,
    statusAfter_of_response hbegun htold hconcludes,
    fun _ => follows_iff_of_response hbegun htold hconcludes⟩

end Visit

/-- An attempt as it is seen from outside. -/
structure Leg where
  address : String
  /-- What was done. -/
  log : List Event
  /-- The status that the client remembers then. -/
  status : Nat
  /-- The location that the client remembers then. -/
  location : Option String

namespace Leg

/-- Bytes that tell what becomes of the attempt at a place, with these peers in the order in which
they are connected to. -/
inductive ToldBy (network : List (Option Peer)) (i : Nat) (leg : Leg) : Bytes → Prop
  /-- Those that were received. -/
  | received : ToldBy network i leg (heard leg.log)
  /-- Those that the peer whose turn it is sends, if it takes the whole request and goes on up to the
  end of its stream. -/
  | sent {url : Url} {peer : Peer} (address : Url.parse leg.address = .ok url)
    (http : url.isHttp = true) (turn : network[i]? = some (some peer)) (isOpen : peer.Open)
    (steady : peer.Steady) : ToldBy network i leg peer.stream

/-- The status that a client remembers behind these attempts. -/
def statusBehind (legs : List Leg) : Nat :=
  (legs.getLast?.map status).getD 0

/-- The location that a client remembers behind these attempts. -/
def locationBehind (before : Option String) (legs : List Leg) : Option String :=
  (legs.getLast?.map location).getD before

end Leg

/-- How the attempts of a transaction hang together that may make `budget` of them. -/
structure Route (c : Client) (budget : Nat) (address : String) (legs : List Leg)
    (t : Transaction Unit) : Prop where
  events : t.events = .deliver .reset :: legs.flatMap Leg.log
  first : legs.head?.map Leg.address = some address
  within : legs.length ≤ budget
  connects_le : (connects t.events).length ≤ budget
  /-- A response is followed by another attempt exactly if it leads to a location while the budget
  lasts, and that is where the attempt goes. -/
  follows : ∀ (i : Nat) (hi : i < legs.length) (bytes : Bytes),
    legs[i].ToldBy c.network i bytes → ∀ location,
      (legs[i + 1]?.map Leg.address = some location ↔
        i + 1 < budget ∧ LeadsTo c.window.capacity bytes location)
  /-- An attempt starts with the connection that its address says, which is accepted if there is a
  peer whose turn it is, and asks for no other. -/
  opens : ∀ (i : Nat) (hi : i < legs.length) (url : Url),
    Url.parse legs[i].address = .ok url → url.isHttp = true →
      ∃ accepted rest, legs[i].log = .connect url.host url.port accepted :: rest ∧
        connects rest = [] ∧ (accepted = true ↔ ∃ peer, c.network[i]? = some (some peer))
  /-- An address that is none ends the transaction without a connection. -/
  malformed : ∀ (i : Nat) (hi : i < legs.length),
    (∀ url, Url.parse legs[i].address = .ok url → url.isHttp = false) →
      legs[i].log = [] ∧ i + 1 = legs.length ∧ t.result = .error .malformedUrl
  /-- The last response is decoded if its headers come to their end, whatever they name. -/
  decoded : ∀ (i : Nat) (hi : i < legs.length), i + 1 = legs.length → ∀ bytes,
    legs[i].ToldBy c.network i bytes → ∀ code ls block rest,
      Opens c.window.capacity bytes code ls block (crlf ++ rest) →
        Decoded c.window.capacity block rest (t.result = .ok ()) (deliveries legs[i].log)
  status : ∀ (i : Nat) (hi : i < legs.length) (bytes : Bytes),
    legs[i].ToldBy c.network i bytes →
      StatusAfter c.window.capacity bytes (Leg.statusBehind (legs.take i)) legs[i].status
  location : ∀ (i : Nat) (hi : i < legs.length) (bytes : Bytes),
    legs[i].ToldBy c.network i bytes →
      LocationAfter c.window.capacity (decide (i + 1 < budget)) bytes
        (Leg.locationBehind c.location (legs.take i)) legs[i].location
  status_eq : t.client.status = Leg.statusBehind legs
  location_eq : t.client.location = Leg.locationBehind c.location legs

namespace Visit

variable {v : Visit} {vs : List Visit} {method : Method} {timeout : Nat} {i : Nat}

/-- The attempt at a visit as it is seen from outside. -/
def leg (method : Method) (timeout : Nat) (v : Visit) : Leg where
  address := v.address
  log := (v.attempt method timeout).events
  status := (v.attempt method timeout).client.status
  location := (v.attempt method timeout).client.location

/-- The client in front of the next attempt of a transaction that starts with this client. -/
def clientBehind (method : Method) (timeout : Nat) (c : Client) (vs : List Visit) : Client :=
  (vs.getLast?.map fun w => (w.attempt method timeout).client).getD c

theorem statusBehind_leg {c : Client} (h : c.status = 0) (vs : List Visit) :
    Leg.statusBehind (vs.map (leg method timeout)) = (clientBehind method timeout c vs).status := by
  rw [Leg.statusBehind, clientBehind, List.getLast?_map]
  cases vs.getLast? with
  | none => exact h.symm
  | some w => rfl

/-- The location remembered behind some attempts is the one that the client carries from the last of
them to the next. -/
theorem locationBehind_leg (c : Client) (vs : List Visit) :
    Leg.locationBehind c.location (vs.map (leg method timeout))
      = (clientBehind method timeout c vs).location := by
  rw [Leg.locationBehind, clientBehind, List.getLast?_map]
  cases vs.getLast? with
  | none => rfl
  | some w => rfl

/-- An attempt starts with the connection that its address says, which is accepted if there is a
peer, and asks for no other. -/
theorem opens_attempt (method : Method) (timeout : Nat) {url : Url}
    (hurl : Url.parse v.address = .ok url) (hhttp : url.isHttp = true) :
    ∃ accepted rest,
      (v.attempt method timeout).events = .connect url.host url.port accepted :: rest ∧
        connects rest = [] ∧
        (accepted = true ↔ ∃ peer, v.client.network.head? = some (some peer)) := by
  cases v.attempt_shape method timeout with
  | malformed unusable => cases hhttp.symm.trans (unusable url hurl)
  | refused address http result events network =>
    obtain rfl := Except.ok.inj (hurl.symm.trans address)
    exact ⟨false, [], events, rfl, iff_of_false nofun fun ⟨peer, h⟩ => network peer h⟩
  | connected address http sent replied events network =>
    obtain rfl := Except.ok.inj (hurl.symm.trans address)
    refine ⟨true, _, events, ?_, iff_of_true rfl network⟩
    rw [connects_append, connects_append, connects_of_sends sent, connects_of_replies replied]
    rfl

/-- An address that is none is the end of the attempt. -/
theorem attempt_of_malformed (method : Method) (timeout : Nat)
    (h : ∀ url, Url.parse v.address = .ok url → url.isHttp = false) :
    (v.attempt method timeout).events = [] ∧
      (v.attempt method timeout).result = .error .malformedUrl := by
  cases v.attempt_shape method timeout with
  | malformed unusable result events => exact ⟨events, result⟩
  | refused address http => cases http.symm.trans (h _ address)
  | connected address http => cases http.symm.trans (h _ address)

/-- One attempt asks for one connection at most. -/
theorem length_connects_attempt_le (method : Method) (timeout : Nat) (v : Visit) :
    (connects (v.attempt method timeout).events).length ≤ 1 := by
  by_cases h : ∃ url, Url.parse v.address = .ok url ∧ url.isHttp = true
  · obtain ⟨url, hurl, hhttp⟩ := h
    obtain ⟨accepted, rest, hevents, hrest, -⟩ := opens_attempt method timeout hurl hhttp
    have hone : connects (.connect url.host url.port accepted :: rest)
        = (url.host, url.port) :: connects rest := rfl
    rw [hevents, hone, hrest]
    exact Nat.le_refl 1
  · have hmalformed (url : Url) (hurl : Url.parse v.address = .ok url) : url.isHttp = false :=
      Bool.eq_false_iff.2 fun hhttp => h ⟨url, hurl, hhttp⟩
    rw [(attempt_of_malformed method timeout hmalformed).1]
    exact Nat.zero_le 1

/-- There are no more connections than attempts. -/
theorem length_connects_eventsOf_le (method : Method) (timeout : Nat) (vs : List Visit) :
    (connects (eventsOf method timeout vs)).length ≤ vs.length := by
  induction vs with
  | nil => exact Nat.le_refl 0
  | cons v vs ih =>
    have hfirst := v.length_connects_attempt_le method timeout
    show (connects ((v.attempt method timeout).events ++ eventsOf method timeout vs)).length ≤ _
    rw [connects_append, List.length_append, List.length_cons]
    omega

namespace Trail

/-- Each attempt is made with the client that the attempts before it have left. -/
theorem client_eq (h : Trail method timeout v vs) (hi : i < vs.length) :
    vs[i].client = clientBehind method timeout v.client (vs.take i) := by
  cases i with
  | zero =>
    have hhead := h.head?_eq
    rw [List.head?_eq_getElem?, List.getElem?_eq_some_iff] at hhead
    rw [hhead.2]
    rfl
  | succ i =>
    obtain ⟨location, -, hnext⟩ := h.goes_on hi
    have hlast : (vs.take (i + 1)).getLast? = some vs[i] := by
      rw [List.getLast?_take, if_neg (Nat.succ_ne_zero i), Nat.add_sub_cancel,
        List.getElem?_eq_getElem (Nat.lt_of_succ_lt hi), Option.some_or]
    rw [clientBehind, hlast, hnext]
    rfl

/-- The transaction ends as its last attempt does, which is not followed. -/
theorem ends (h : Trail method timeout v vs) (hi : i < vs.length) (hend : i + 1 = vs.length) :
    (∀ location, (vs[i].attempt method timeout).result ≠ .ok (.redirect location)) ∧
      v.transaction method timeout
        = ⟨(vs[i].attempt method timeout).result.map fun _ => (),
          (vs[i].attempt method timeout).client, (vs[i].attempt method timeout).source,
          eventsOf method timeout vs⟩ := by
  obtain ⟨before, last, rfl, -, hends, -, htransaction⟩ := h.concludes
  rw [List.length_append, List.length_singleton] at hend
  rw [List.getElem_concat_length (Nat.succ_inj.1 hend)]
  exact ⟨hends, htransaction⟩

/-- A visit is left for a location exactly if it is followed by one at that location, so the
addresses of a trail tell which responses were followed. -/
theorem next_iff (h : Trail method timeout v vs) (hi : i < vs.length) (location : String) :
    vs[i + 1]?.map Visit.address = some location ↔
      (vs[i].attempt method timeout).result = .ok (.redirect location) := by
  constructor
  · intro hnext
    obtain ⟨w, hw, rfl⟩ := Option.map_eq_some_iff.1 hnext
    obtain ⟨hlt, rfl⟩ := List.getElem?_eq_some_iff.1 hw
    obtain ⟨location, hresult, hvisit⟩ := h.goes_on hlt
    rw [hvisit]
    exact hresult
  · intro hresult
    by_cases hlt : i + 1 < vs.length
    · obtain ⟨location', hresult', hvisit⟩ := h.goes_on hlt
      cases hresult.symm.trans hresult'
      rw [List.getElem?_eq_getElem hlt, hvisit]
      rfl
    · have hend : i + 1 = vs.length := Nat.le_antisymm hi (Nat.not_lt.1 hlt)
      exact absurd hresult ((h.ends hi hend).1 location)

end Trail

section Route

variable {c : Client} {address : String} {source : Option Source}

theorem length_le_of_trail (hattempts : 0 < c.attempts)
    (h : Trail method timeout (c.firstVisit address source) vs) : vs.length ≤ c.attempts := by
  have hlast : vs.length - 1 < vs.length := Nat.sub_lt h.length_pos Nat.one_pos
  have hleft : vs[vs.length - 1].redirects + (vs.length - 1) = c.attempts - 1 :=
    (h.getElem hlast).1
  omega

section Leg

variable (h : Trail method timeout (c.firstVisit address source) vs) (hi : i < vs.length)

include h hi

/-- A transaction may follow as many locations as the client may make attempts, less one. -/
theorem follows_of_trail : vs[i].follows = decide (i + 1 < c.attempts) := by
  have hleft : vs[i].redirects + i = c.attempts - 1 := (h.getElem hi).1
  apply decide_eq_decide.2
  omega

theorem capacity_of_trail : vs[i].capacity = c.window.capacity :=
  (h.getElem hi).2

theorem result_of_trail (hend : i + 1 = vs.length) :
    (c.execute method address source timeout).result
      = (vs[i].attempt method timeout).result.map fun _ => () :=
  congrArg Transaction.result (h.ends hi hend).2

/-- The attempt at a place of a trail has the connection of the peer at that place. -/
theorem head?_network_of_trail : vs[i].client.network.head? = c.network[i]? := by
  rw [h.network_eq hi, List.head?_drop]
  rfl

/-- What tells what becomes of a leg decides what becomes of its attempt. -/
theorem decides_of_toldBy {bytes : Bytes}
    (htold : (leg method timeout vs[i]).ToldBy c.network i bytes) :
    vs[i].Decides method timeout bytes := by
  cases htold with
  | received => exact vs[i].decides_heard method timeout
  | sent address http turn isOpen steady =>
    exact decides_stream address http ((head?_network_of_trail h hi).trans turn) isOpen steady

section Told

variable {bytes : Bytes} (htold : (leg method timeout vs[i]).ToldBy c.network i bytes)

include htold

theorem next_of_trail (location : String) :
    vs[i + 1]?.map Visit.address = some location ↔
      i + 1 < c.attempts ∧ LeadsTo c.window.capacity bytes location := by
  rw [h.next_iff hi, (decides_of_toldBy h hi htold).follows location, follows_of_trail h hi,
    capacity_of_trail h hi, decide_eq_true_iff]

/-- The last attempt has its body decoded, whatever decides it: it has a body in the end, because it
is the last one, and its success is that of the transaction. -/
theorem decoded_of_trail (hend : i + 1 = vs.length) {code : Nat} {ls : List Bytes}
    {block : HeaderBlock} {rest : Bytes}
    (hopens : Opens c.window.capacity bytes code ls block (crlf ++ rest)) :
    Decoded c.window.capacity block rest
      ((c.execute method address source timeout).result = .ok ())
      (vs[i].attempt method timeout).deliveries := by
  obtain ⟨hends, -⟩ := h.ends hi hend
  rw [← capacity_of_trail h hi] at hopens ⊢
  rw [result_of_trail h hi hend]
  exact (decides_of_toldBy h hi htold).ended.decoded hends (succeeds_iff hends) hopens

/-- The status behind an attempt is the one that its bytes say, and where they say none it is the
one from before. -/
theorem status_of_trail :
    StatusAfter c.window.capacity bytes
      (Leg.statusBehind ((vs.take i).map (leg method timeout)))
      (vs[i].attempt method timeout).client.status := by
  have hbefore : Leg.statusBehind ((vs.take i).map (leg method timeout))
      = vs[i].client.status := by
    rw [h.client_eq hi]
    exact statusBehind_leg rfl (vs.take i)
  rw [hbefore, ← capacity_of_trail h hi]
  exact (decides_of_toldBy h hi htold).status

/-- The location behind an attempt is the one that its bytes name, and where they name none it is
the one from before. Which one they name hangs on whether it can be followed. -/
theorem location_of_trail :
    LocationAfter c.window.capacity (decide (i + 1 < c.attempts)) bytes
      (Leg.locationBehind c.location ((vs.take i).map (leg method timeout)))
      (vs[i].attempt method timeout).client.location := by
  have hbefore : Leg.locationBehind c.location ((vs.take i).map (leg method timeout))
      = vs[i].client.location := by
    rw [h.client_eq hi]
    exact locationBehind_leg (c.firstVisit address source).client (vs.take i)
  rw [hbefore, ← follows_of_trail h hi, ← capacity_of_trail h hi]
  exact (decides_of_toldBy h hi htold).ended.locationAfter

end Told

/-- An address that does not parse, or has another scheme, is where a transaction ends, before
anything is done about it. -/
theorem malformed_of_trail
    (hmalformed : ∀ url, Url.parse vs[i].address = .ok url → url.isHttp = false) :
    (vs[i].attempt method timeout).events = [] ∧ i + 1 = vs.length ∧
      (c.execute method address source timeout).result = .error .malformedUrl := by
  obtain ⟨hlog, herror⟩ := attempt_of_malformed method timeout hmalformed
  have hend : i + 1 = vs.length := by
    refine Nat.le_antisymm hi (Nat.not_lt.1 ?_)
    intro hlt
    obtain ⟨location, hfollowed, -⟩ := h.goes_on hlt
    cases herror.symm.trans hfollowed
  exact ⟨hlog, hend, by rw [result_of_trail h hi hend, herror]; rfl⟩

end Leg

/-- The attempts of a transaction are its route. Each clause is about the attempt at one place, and
is taken from what is known of every visit of a trail. -/
theorem route_of_trail (hattempts : 0 < c.attempts)
    (h : Trail method timeout (c.firstVisit address source) vs) :
    Route c c.attempts address (vs.map (leg method timeout))
      (c.execute method address source timeout) := by
  have hwithin := length_le_of_trail hattempts h
  obtain ⟨before, last, hvs, -, -, -, htransaction⟩ := h.concludes
  have hevents : (c.execute method address source timeout).events
      = .deliver .reset :: eventsOf method timeout vs :=
    congrArg (Event.deliver .reset :: Transaction.events ·) htransaction
  have hclient : (c.execute method address source timeout).client
      = clientBehind method timeout (c.firstVisit address source).client vs := by
    rw [clientBehind, hvs, List.getLast?_concat]
    exact congrArg Transaction.client htransaction
  have hlength : (vs.map (leg method timeout)).length = vs.length := List.length_map _
  refine ⟨?events, ?first, hlength ▸ hwithin, ?connects_le, ?follows, ?opens, ?malformed,
    ?decoded, ?status, ?location, ?status_eq, ?location_eq⟩
  case events =>
    rw [hevents, eventsOf, List.flatMap_map]
    rfl
  case first =>
    rw [List.head?_map, h.head?_eq]
    rfl
  case connects_le =>
    rw [hevents]
    exact Nat.le_trans (length_connects_eventsOf_le method timeout vs) hwithin
  case follows =>
    intro i hi bytes htold location
    rw [List.getElem_map] at htold
    rw [List.getElem?_map, Option.map_map]
    exact next_of_trail h (hlength ▸ hi) htold location
  case opens =>
    intro i hi url hurl hhttp
    rw [List.getElem_map] at hurl ⊢
    rw [← head?_network_of_trail h (hlength ▸ hi)]
    exact opens_attempt method timeout hurl hhttp
  case malformed =>
    intro i hi hmalformed
    rw [List.getElem_map] at hmalformed ⊢
    obtain ⟨hlog, hend, hresult⟩ := malformed_of_trail h (hlength ▸ hi) hmalformed
    exact ⟨hlog, hend.trans hlength.symm, hresult⟩
  case decoded =>
    intro i hi hend bytes htold code ls block rest hopens
    rw [List.getElem_map] at htold ⊢
    exact decoded_of_trail h (hlength ▸ hi) htold (hend.trans hlength) hopens
  case status =>
    intro i hi bytes htold
    rw [List.getElem_map] at htold ⊢
    rw [← List.map_take]
    exact status_of_trail h (hlength ▸ hi) htold
  case location =>
    intro i hi bytes htold
    rw [List.getElem_map] at htold ⊢
    rw [← List.map_take]
    exact location_of_trail h (hlength ▸ hi) htold
  case status_eq =>
    rw [hclient]
    exact (statusBehind_leg rfl vs).symm
  case location_eq =>
    rw [hclient]
    exact (locationBehind_leg (c.firstVisit address source).client vs).symm

end Route

end Visit

/-- A client that may make `n` attempts, and one where that is none, follows the locations of its
responses as far as that goes, and no others; it asks for the connection that the address or the
location says, and ends where they say none; and it takes the response to its last attempt as it is.
What a response is, is told by what was received of it, and as well by what its peer sends, if that
takes the request and goes on up to the end of its stream.
The loop over the attempts comes to the same: it has an attempt left whenever it makes one, and a
location whenever it follows one. A new client makes one attempt. -/
theorem Client.execute_follows_redirects (c : Client) (n : Nat) (method : Method)
    (address : String) (source : Option Source) (timeout : Nat) :
    let client := c.setAttempts n
    let t := client.execute method address source timeout
    let loop := fun k => (Controller.start client source).steps method address timeout k
    (∃ legs, Route client (max n 1) address legs t) ∧
      (∀ k, (loop k).Sound) ∧ (∃ k, (loop k).Concluded t) ∧
      (new c.window.capacity c.window.capacity_pos).attempts = 1 := by
  intro client t loop
  have hattempts : 0 < client.attempts := Nat.le_max_right n 1
  obtain ⟨vs, htrail⟩ := Visit.exists_trail method timeout (client.firstVisit address source)
  exact ⟨⟨_, Visit.route_of_trail hattempts htrail⟩,
    (Controller.sound_start client source hattempts).steps,
    Controller.steps_execute client method address source timeout, rfl⟩

end DeviceHttp
