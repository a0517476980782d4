import DeviceHttp.Proofs.Transfer.Connections
import DeviceHttp.Proofs.Transfer.Sources

/-!
# A request as the pieces in which it is sent

What is sent goes out in pieces, and a piece that is not taken whole is the last one that is offered:
`Posts` says that of a list of pieces. The two loops that send a body come to lists of pieces, too
(`Source.measured`, `Source.chunked`), so a whole request is one list (`Exchange.requestPieces`), and
what became of it is told by what became of the list (`Exchange.posts_of_sendAll`).
-/

namespace DeviceHttp

open Window (crlf)

/-- A byte string in pieces of `size` bytes, the last one possibly shorter and none empty. -/
structure CutInto (size : Nat) (bytes : Bytes) (parts : List Bytes) : Prop where
  flatten : parts.flatten = bytes
  nonEmpty : ∀ part ∈ parts, part ≠ []
  full : ∀ part ∈ parts.dropLast, part.length = size
  within : ∀ part ∈ parts, part.length ≤ size

/-- Cutting a text takes full pieces as long as there are enough bytes. Only the last one may be
shorter, and it is there only if something is left. -/
theorem cutInto_pieces {size : Nat} (hsize : 0 < size) (bytes : Bytes) :
    CutInto size bytes (pieces size bytes) := by
  refine ⟨flatten_pieces hsize bytes, ?_, ?_, ?_⟩
  · fun_induction pieces size bytes with
    | case1 bytes h => simp
    | case2 bytes h ih =>
      obtain ⟨-, hne⟩ := not_or.1 h
      exact List.forall_mem_cons.2 ⟨by simp [hne, Nat.ne_of_gt hsize], ih⟩
  · fun_induction pieces size bytes with
    | case1 bytes h => simp
    | case2 bytes h ih =>
      cases hrest : pieces size (bytes.drop size) with
      | nil => simp
      | cons part parts =>
        rw [hrest] at ih
        rw [List.dropLast_cons_cons]
        refine List.forall_mem_cons.2 ⟨?_, ih⟩
        -- there is a next piece, so this one is not the rest of the bytes
        have hmore : bytes.drop size ≠ [] := by
          intro hnil
          rw [hnil, pieces, dif_pos (.inr rfl)] at hrest
          cases hrest
        have := List.length_pos_iff.2 hmore
        rw [List.length_drop] at this
        exact List.length_take_of_le (by omega)
  · fun_induction pieces size bytes with
    | case1 bytes h => simp
    | case2 bytes h ih => exact List.forall_mem_cons.2 ⟨List.length_take_le _ _, ih⟩

/-! ## What was offered and what was taken -/

namespace Event

/-- The piece that an event offers, if it is a send. -/
def offered? : Event → Option Bytes
  | send bytes _ _ => some bytes
  | _ => none

/-- The bytes that the peer takes in an event. -/
def takenBytes : Event → Bytes
  | send bytes _ (some n) => bytes.take n
  | _ => []

/-- What is offered is taken whole. -/
def IsTaken : Event → Prop
  | send bytes _ accepted => accepted = some bytes.length
  | _ => True

instance : DecidablePred IsTaken
  | send bytes _ accepted => inferInstanceAs (Decidable (accepted = some bytes.length))
  | connect _ _ _ => isTrue trivial
  | receive _ _ _ _ => isTrue trivial
  | close => isTrue trivial
  | deliver _ => isTrue trivial

/-- A piece that is taken whole. -/
def posted (timeout : Nat) (piece : Bytes) : Event :=
  send piece timeout (some piece.length)

end Event

/-- The pieces that were offered, in order. -/
def offers (events : List Event) : List Bytes :=
  events.filterMap Event.offered?

/-- The bytes that the peer took, in order. -/
def takenBytes (events : List Event) : Bytes :=
  events.flatMap Event.takenBytes

/-- Every piece that was offered was taken whole. -/
def AllTaken (events : List Event) : Prop :=
  ∀ e ∈ events, e.IsTaken

instance (events : List Event) : Decidable (AllTaken events) :=
  inferInstanceAs (Decidable (∀ e ∈ events, e.IsTaken))

@[simp] theorem offers_append (xs ys : List Event) : offers (xs ++ ys) = offers xs ++ offers ys := by
  simp [offers]

@[simp] theorem takenBytes_append (xs ys : List Event) :
    takenBytes (xs ++ ys) = takenBytes xs ++ takenBytes ys := by
  simp [takenBytes]

@[simp] theorem offers_posted (timeout : Nat) (pieces : List Bytes) :
    offers (pieces.map (Event.posted timeout)) = pieces := by
  induction pieces with
  | nil => rfl
  | cons piece pieces ih => exact congrArg (piece :: ·) ih

/-- Pieces that were all taken whole are taken one behind the other. -/
@[simp] theorem takenBytes_posted (timeout : Nat) (pieces : List Bytes) :
    takenBytes (pieces.map (Event.posted timeout)) = pieces.flatten := by
  induction pieces with
  | nil => rfl
  | cons piece pieces ih =>
    show piece.take piece.length ++ takenBytes (pieces.map (Event.posted timeout)) = _
    rw [ih, List.take_length, List.flatten_cons]

/-- What a response does offers nothing. -/
theorem offers_of_replies {events : List Event} (h : ∀ e ∈ events, e.IsReply) :
    offers events = [] ∧ takenBytes events = [] := by
  induction events with
  | nil => exact ⟨rfl, rfl⟩
  | cons e events ih =>
    obtain ⟨he, hevents⟩ := List.forall_mem_cons.1 h
    cases e with
    | receive room minimum timeout bytes => exact ih hevents
    | deliver call => exact ih hevents
    | _ => exact he.elim

theorem allTaken_posted (timeout : Nat) (pieces : List Bytes) :
    AllTaken (pieces.map (Event.posted timeout)) := by
  intro e h
  obtain ⟨piece, -, rfl⟩ := List.mem_map.1 h
  rfl

/-- The failure of a send that is not taken whole. -/
def sendError : Option Nat → TransferError
  | none => .connection
  | some _ => .closed

/-- What becomes of pieces that are sent one after the other, and the failure that there was. A piece
that is not taken whole is the last one that is offered. -/
inductive Posts (timeout : Nat) (pieces : List Bytes) : List Event → Option TransferError → Prop
  | all : Posts timeout pieces (pieces.map (Event.posted timeout)) none
  | stopped {before after : List Bytes} {piece : Bytes} {accepted : Option Nat}
    (cut : pieces = before ++ piece :: after) (less : ∀ n ∈ accepted, n < piece.length) :
    Posts timeout pieces (before.map (Event.posted timeout) ++ [.send piece timeout accepted])
      (some (sendError accepted))

namespace Posts

variable {timeout : Nat} {pieces : List Bytes} {events : List Event} {e : TransferError}
  {failure : Option TransferError}

/-- One more piece in front, which was taken. -/
theorem cons (piece : Bytes) (h : Posts timeout pieces events failure) :
    Posts timeout (piece :: pieces) (.posted timeout piece :: events) failure := by
  cases h with
  | all => exact .all
  | @stopped before after last accepted cut less =>
    have hcut : piece :: pieces = (piece :: before) ++ last :: after := by rw [cut]; rfl
    exact .stopped hcut less

/-- What was offered is a front part of the pieces, and what was taken one of their bytes; so a peer
has never got anything but the front of the request. -/
theorem prefixes (h : Posts timeout pieces events failure) :
    offers events <+: pieces ∧ takenBytes events <+: pieces.flatten := by
  cases h with
  | all => simp
  | @stopped before after piece accepted cut less =>
    subst cut
    have hoffer : offers [.send piece timeout accepted] = [piece] := rfl
    have htaken : takenBytes [.send piece timeout accepted] <+: piece := by
      cases accepted with
      | none => exact List.nil_prefix
      | some n =>
        show piece.take n ++ [] <+: piece
        rw [List.append_nil]
        exact List.take_prefix n piece
    rw [offers_append, offers_posted, hoffer, takenBytes_append, takenBytes_posted,
      List.flatten_append, List.flatten_cons]
    refine ⟨⟨after, by simp⟩, (List.prefix_append_right_inj _).2 ?_⟩
    exact htaken.trans (List.prefix_append _ _)

/-- Without a failure all pieces were taken. -/
theorem takenBytes_eq (h : Posts timeout pieces events none) :
    takenBytes events = pieces.flatten := by
  cases h
  exact takenBytes_posted timeout pieces

/-- If every piece was taken whole, then all were sent. -/
theorem eq_of_allTaken (h : Posts timeout pieces events failure) (htaken : AllTaken events) :
    events = pieces.map (Event.posted timeout) := by
  cases h with
  | all => rfl
  | @stopped before after piece accepted cut less =>
    obtain rfl : accepted = some piece.length :=
      htaken _ (List.mem_append_right _ List.mem_cons_self)
    exact absurd (less _ rfl) (Nat.lt_irrefl _)

/-- A piece that was not taken whole is the last one, and the failure is that of sending it. -/
theorem eq_of_not_taken {bytes : Bytes} {wait : Nat} {accepted : Option Nat}
    (h : Posts timeout pieces events failure) (hmem : .send bytes wait accepted ∈ events)
    (hless : accepted ≠ some bytes.length) :
    ∃ before : List Bytes,
      events = before.map (Event.posted timeout) ++ [.send bytes wait accepted] ∧
      failure = some (sendError accepted) := by
  have hposted (before : List Bytes) :
      Event.send bytes wait accepted ∉ before.map (Event.posted timeout) :=
    fun h => hless (allTaken_posted timeout before _ h)
  cases h with
  | all => exact absurd hmem (hposted pieces)
  | @stopped before after piece accepted' cut less =>
    have hlast := (List.mem_append.1 hmem).resolve_left (hposted before)
    cases List.mem_singleton.1 hlast
    exact ⟨before, rfl, rfl⟩

end Posts

/-! ## Sending pieces -/

/-- A peer takes no more than it is offered. -/
theorem Peer.le_length_of_send {bytes : Bytes} {p : Peer} {n : Nat}
    (h : (p.send bytes).1 = some n) : n ≤ bytes.length := by
  unfold Peer.send at h
  split at h
  · cases h
  · obtain rfl := Option.some.inj h
    split
    · exact Nat.zero_le _
    · split
      · exact Nat.le_refl _
      · exact Nat.min_le_left _ _

namespace Exchange

/-- The failure of an outcome, if it is one. -/
def Outcome.failure {α : Type} : Outcome α → Option TransferError
  | .ok _ _ => none
  | .error e _ => some e

/-- A piece is taken whole, or it is a failure to send it. A peer that takes less than the piece is
treated as one that has closed. -/
theorem send_cases (piece : Bytes) (x : Exchange) :
    (∃ y, x.send piece = .ok () y ∧ y.trace = x.trace ++ [.posted x.timeout piece]) ∨
      ∃ accepted y, x.send piece = .error (sendError accepted) y ∧
        y.trace = x.trace ++ [.send piece x.timeout accepted] ∧
        ∀ n ∈ accepted, n < piece.length := by
  unfold send
  dsimp only
  split
  · next h => exact .inr ⟨none, _, rfl, congrArg (x.trace ++ [.send piece x.timeout ·]) h, by simp⟩
  · next n h =>
    split
    · next hless =>
      refine .inr ⟨some n, _, rfl, congrArg (x.trace ++ [.send piece x.timeout ·]) h, ?_⟩
      rintro _ ⟨⟩
      exact hless
    · next hall =>
      have hn : n = piece.length := Nat.le_antisymm (Peer.le_length_of_send h) (Nat.not_lt.1 hall)
      subst hn
      exact .inl ⟨_, rfl, congrArg (x.trace ++ [.send piece x.timeout ·]) h⟩

/-- Pieces go out in order until one of them is not taken whole, and then no other one is
offered. -/
theorem posts_sendAll (pieces : List Bytes) (x : Exchange) :
    ∃ events, (x.sendAll pieces).exchange.trace = x.trace ++ events ∧
      Posts x.timeout pieces events (x.sendAll pieces).failure := by
  induction pieces generalizing x with
  | nil => exact ⟨[], (List.append_nil _).symm, .all⟩
  | cons piece pieces ih =>
    rw [sendAll]
    rcases send_cases piece x with ⟨y, hy, htrace⟩ | ⟨accepted, y, hy, htrace, hless⟩
    · have htimeout : y.timeout = x.timeout :=
        (Outcome.exchange_of_ok hy ▸ sent_send piece x).timeout
      obtain ⟨events, hevents, hposts⟩ := ih y
      rw [hy]
      refine ⟨.posted x.timeout piece :: events, ?_, ?_⟩
      · show (y.sendAll pieces).exchange.trace = _
        rw [hevents, htrace, List.append_assoc]
        rfl
      · exact (htimeout ▸ hposts).cons piece
    · rw [hy]
      have hcut : piece :: pieces = [] ++ piece :: pieces := rfl
      exact ⟨_, htrace, .stopped hcut hless⟩

/-- Two lists of pieces go out one behind the other; if the first one stops, nothing of the second
one is sent. -/
theorem sendAll_append (first later : List Bytes) (x : Exchange) :
    x.sendAll (first ++ later) = andThen (x.sendAll first) fun _ y => y.sendAll later := by
  induction first generalizing x with
  | nil => rfl
  | cons piece pieces ih =>
    rw [List.cons_append, sendAll, sendAll]
    cases x.send piece with
    | error e y => rfl
    | ok u y => exact ih y

end Exchange

/-! ## A body as pieces -/

namespace Source

/-- The pieces in which at most so many bytes of a source are sent. -/
def measured (capacity remaining : Nat) (s : Source) : List Bytes :=
  if _h0 : remaining = 0 then []
  else
    let read := s.read (min remaining capacity)
    if _h : read.1 = [] then []
    else read.1 :: measured capacity (remaining - read.1.length) read.2
termination_by remaining
decreasing_by
  have : 0 < (s.read (min remaining capacity)).1.length := List.length_pos_iff.2 _h
  omega

/-- The pieces in which a source is sent in chunks. -/
def chunked (capacity : Nat) (s : Source) : List Bytes :=
  let read := s.read capacity
  Chunk.sizeLine read.1.length ::
    if _h : read.1 = [] then [crlf]
    else [read.1, crlf] ++ chunked capacity read.2
termination_by s.bytesLeft
decreasing_by exact s.bytesLeft_read_lt _ _h

/-- The pieces of a body of known length: what the first read gives, and those of what is still
missing then. A read that gives nothing ends them. -/
theorem measured_round {capacity remaining : Nat} {s : Source} (h0 : remaining ≠ 0) :
    s.measured capacity remaining =
      if (s.read (min remaining capacity)).1 = [] then []
      else
        (s.read (min remaining capacity)).1 ::
          (s.read (min remaining capacity)).2.measured capacity
            (remaining - (s.read (min remaining capacity)).1.length) := by
  rw [measured, dif_neg h0]
  rfl

/-- The pieces of a body in chunks: the size line, the data and its line end, and those of the rest.
The empty chunk has no data. -/
theorem chunked_round (capacity : Nat) (s : Source) :
    s.chunked capacity =
      Chunk.sizeLine (s.read capacity).1.length ::
        if (s.read capacity).1 = [] then [crlf]
        else [(s.read capacity).1, crlf] ++ (s.read capacity).2.chunked capacity := by
  rw [chunked]
  rfl

/-- The pieces in which a source is sent. -/
def sent (capacity : Nat) (s : Source) : List Bytes :=
  match s.framing with
  | .chunked => s.chunked capacity
  | .length n => s.measured capacity n

end Source

namespace Exchange

/-- What was read of the source makes no difference to sending pieces. -/
theorem send_holding (source : Option Source) (bytes : Bytes) (x : Exchange) :
    (x.holding source).send bytes = onState (holding source) (x.send bytes) := by
  unfold send
  dsimp only [holding]
  cases (x.peer.send bytes).1 with
  | none => rfl
  | some n =>
    dsimp only
    split <;> rfl

/-- What an exchange holds to be sent later makes no difference to pieces that are sent now. -/
theorem sendAll_holding (source : Option Source) (pieces : List Bytes) (x : Exchange) :
    (x.holding source).sendAll pieces = onState (holding source) (x.sendAll pieces) := by
  induction pieces generalizing x with
  | nil => rfl
  | cons piece pieces ih =>
    rw [sendAll, sendAll, send_holding]
    cases x.send piece with
    | error e y => rfl
    | ok u y => exact ih y

theorem send_of_holding {source : Option Source} {bytes : Bytes} {x : Exchange} {o : Outcome Unit}
    (h : (x.holding source).send bytes = o) :
    (x.holding none).send bytes = onState (holding none) o := by
  subst h
  exact send_holding none bytes (x.holding source)

/-- A body of announced length is sent as its pieces are. The loop reads and sends in turn, but what
it reads does not hang on what becomes of the pieces. -/
theorem sendLength_eq_sendAll (remaining : Nat) (source : Source) (x : Exchange) :
    onState (holding none) (x.sendLength remaining source)
      = (x.holding none).sendAll (source.measured x.window.capacity remaining) := by
  fun_induction sendLength remaining source x with
  | case1 source x =>
    rw [Source.measured]
    rfl
  | case2 remaining source x h0 read y hnil =>
    rw [Source.measured, dif_neg h0, dif_pos hnil]
    rfl
  | case3 remaining source x h0 read y hread e z hz =>
    rw [Source.measured, dif_neg h0, dif_neg hread, sendAll, send_of_holding hz]
    rfl
  | case4 remaining source x h0 read y hread u z hz ih =>
    have hcapacity : z.window.capacity = x.window.capacity :=
      (Outcome.exchange_of_ok hz ▸ sent_send read.1 y).capacity
    rw [Source.measured, dif_neg h0, dif_neg hread, sendAll, send_of_holding hz, ih, hcapacity]
    rfl

theorem sendAll_singleton (piece : Bytes) (x : Exchange) : x.sendAll [piece] = x.send piece := by
  rw [sendAll]
  cases x.send piece <;> rfl

/-- A body in chunks is sent as its pieces are, the size lines and line ends among them. -/
theorem sendChunks_eq_sendAll (source : Source) (x : Exchange) :
    onState (holding none) (x.sendChunks source)
      = (x.holding none).sendAll (source.chunked x.window.capacity) := by
  fun_induction sendChunks source x with
  | case1 source x read y e z hz =>
    rw [Source.chunked, sendAll, send_of_holding hz]
    rfl
  | case2 source x read y u z hz hnil =>
    rw [Source.chunked, sendAll, send_of_holding hz, dif_pos hnil]
    show _ = (z.holding none).sendAll [crlf]
    rw [sendAll_singleton, send_holding]
  | case3 source x read y u z hz hread e w hw =>
    rw [Source.chunked, sendAll, send_of_holding hz, dif_neg hread]
    show _ = (z.holding none).sendAll _
    rw [sendAll_append, sendAll_holding, hw]
    rfl
  | case4 source x read y u z hz hread v w hw ih =>
    have hline : Sent y z :=
      Outcome.exchange_of_ok hz ▸ sent_send (Chunk.sizeLine read.1.length) y
    have hdata : Sent z w := Outcome.exchange_of_ok hw ▸ sent_sendAll [read.1, crlf] z
    have hcapacity : w.window.capacity = x.window.capacity := (hline.trans hdata).capacity
    rw [Source.chunked, sendAll, send_of_holding hz, dif_neg hread]
    show _ = (z.holding none).sendAll _
    rw [sendAll_append, sendAll_holding, hw, ih, hcapacity]
    rfl

/-! ## A request as pieces -/

theorem source_sendAll (pieces : List Bytes) (x : Exchange) :
    (x.sendAll pieces).exchange.source = x.source := by
  have hview : x.sendAll pieces = onState (holding x.source) (x.sendAll pieces) :=
    sendAll_holding x.source pieces x
  rw [hview]
  cases x.sendAll pieces <;> rfl

/-- The pieces in which a request is sent. -/
def requestPieces (head : RequestHead) (x : Exchange) : List Bytes :=
  pieces x.window.capacity (Utf8.ofString head.text)
    ++ (x.source.map (Source.sent x.window.capacity)).getD []

/-- A body is sent as its pieces are. -/
theorem sendBody_eq_sendAll (x : Exchange) :
    onState (holding none) x.sendBody
      = (x.holding none).sendAll ((x.source.map (Source.sent x.window.capacity)).getD []) := by
  unfold sendBody
  cases x.source with
  | none => rfl
  | some s =>
    dsimp only [Option.map_some, Option.getD_some]
    unfold Source.sent
    cases s.framing with
    | chunked => exact sendChunks_eq_sendAll s x
    | length n => exact sendLength_eq_sendAll n s x

/-- A request is sent as its pieces are. -/
theorem sendRequest_eq_sendAll (head : RequestHead) (x : Exchange) :
    onState (holding none) (x.sendRequest head)
      = (x.holding none).sendAll (x.requestPieces head) := by
  rw [sendRequest, requestPieces, sendHead, sendAll_append, sendAll_holding]
  refine (andThen_onState fun u y hy => ?_).symm
  have hy := Outcome.exchange_of_ok hy
  have hcapacity : y.window.capacity = x.window.capacity := hy ▸ (sent_sendAll _ x).capacity
  have hsource : y.source = x.source := hy ▸ source_sendAll _ x
  rw [sendBody_eq_sendAll, hcapacity, hsource]

/-- What is sent as pieces are is told by what becomes of the pieces. -/
theorem posts_of_sendAll {o : Outcome Unit} {pieces : List Bytes} {x : Exchange}
    (h : onState (holding none) o = (x.holding none).sendAll pieces) :
    ∃ events, o.exchange.trace = x.trace ++ events ∧ Posts x.timeout pieces events o.failure := by
  obtain ⟨events, htrace, hposts⟩ := posts_sendAll pieces (x.holding none)
  rw [← h] at htrace hposts
  cases o with
  | ok u y => exact ⟨events, htrace, hposts⟩
  | error e y => exact ⟨events, htrace, hposts⟩

/-- A conversation is a request, and behind one that was taken whole the response. -/
theorem posts_converse (head : RequestHead) (follow : Bool) {x : Exchange} (hx : x.trace = []) :
    ∃ sends replies failure,
      (Outcome.exchange (Client.converse head follow x)).trace = sends ++ replies ∧
      Posts x.timeout (x.requestPieces head) sends failure ∧
      (∀ e ∈ replies, e.IsReply) ∧
      ∀ e ∈ failure, replies = [] ∧ (Client.converse head follow x).result = .error e := by
  obtain ⟨sends, htrace, hposts⟩ := posts_of_sendAll (sendRequest_eq_sendAll head x)
  rw [hx, List.nil_append] at htrace
  rw [converse_eq]
  cases hy : x.sendRequest head with
  | error e y =>
    rw [hy] at htrace hposts
    refine ⟨sends, [], some e, by rw [List.append_nil]; exact htrace, hposts, by simp, ?_⟩
    rintro _ ⟨⟩
    exact ⟨rfl, rfl⟩
  | ok u y =>
    rw [hy] at htrace hposts
    obtain ⟨replies, hreplies, hreply⟩ :=
      adds_readResponse follow { y with window := y.window.clear }
    refine ⟨sends, replies, none, ?_, hposts, hreply, nofun⟩
    exact hreplies.trans (congrArg (· ++ replies) htrace)

end Exchange

end DeviceHttp
