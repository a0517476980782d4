import Mathlib.Logic.Basic
import DeviceHttp.Proofs.Transfer.Pieces
import DeviceHttp.Proofs.Transfer.Reply

/-!
# The text of a request

A request is some lines, an empty one, and the body. What stands in it is decided by the method, the
address, what the caller chose, and the content of the body; the size of the working buffer only
decides where the pieces are cut in which it is sent (`Client.attempt_sends_text`).
-/

namespace DeviceHttp

open Window (crlf)

/-! ## Bodies that are held whole -/

namespace Source

/-- The whole body, if it is held whole. -/
def content? : Source → Option Bytes
  | fixed body => some body.content
  | form body => some (Form.encode body.pairs)
  | stream _ => none

/-- What is left to read of a body that is held whole. -/
def unread? : Source → Option Bytes
  | fixed body => some body.rest
  | form body => some body.remaining
  | stream _ => none

theorem unread?_reset (s : Source) : s.reset.unread? = s.content? := by
  cases s with
  | fixed body => rfl
  | form body => exact congrArg some (FormBody.remaining_ofPairs body.pairs)
  | stream body => rfl

@[simp] theorem contentType_reset (s : Source) : s.reset.contentType = s.contentType := by
  cases s <;> rfl

/-- The length that is announced is that of the whole body. -/
theorem framing_reset {s : Source} {content : Bytes} (h : s.content? = some content) :
    s.reset.framing = .length content.length := by
  cases s with
  | fixed body =>
    cases h
    rfl
  | form body =>
    cases h
    have hpairs : (FormBody.ofPairs body.pairs).pairs = body.pairs := by
      cases body.pairs <;> rfl
    show Framing.length (Form.encodedLength (FormBody.ofPairs body.pairs).pairs) = _
    rw [hpairs, Form.length_encode]
  | stream body => cases h

/-- A read gives the front of what is left of a source, as much as there is room for, and leaves the
rest. -/
theorem read_of_unread {s : Source} {bytes : Bytes} (h : s.unread? = some bytes) (room : Nat) :
    (s.read room).1 = bytes.take room ∧ (s.read room).2.unread? = some (bytes.drop room) := by
  cases s with
  | fixed body =>
    cases h
    exact ⟨rfl, rfl⟩
  | form body =>
    cases h
    exact ⟨body.read_fst room, congrArg some (body.remaining_read room)⟩
  | stream body => cases h

/-- A body that is held whole is sent in the pieces of what is left of it, all of them full but the
last. -/
theorem measured_of_unread {capacity : Nat} (hcapacity : 0 < capacity) {s : Source} {bytes : Bytes}
    (h : s.unread? = some bytes) : s.measured capacity bytes.length = pieces capacity bytes := by
  fun_induction pieces capacity bytes generalizing s with
  | case1 bytes hend =>
    have hnil : bytes.length = 0 :=
      List.length_eq_zero_iff.2 (hend.resolve_left (Nat.ne_of_gt hcapacity))
    rw [measured, dif_pos hnil]
  | case2 bytes hmore ih =>
    obtain ⟨-, hne⟩ := not_or.1 hmore
    have hlength : bytes.length ≠ 0 := mt List.length_eq_zero_iff.1 hne
    obtain ⟨hread, hleft⟩ := read_of_unread h (min bytes.length capacity)
    have hpiece : bytes.take (min bytes.length capacity) = bytes.take capacity :=
      List.take_eq_take_iff.2 (by omega)
    have hrest : bytes.drop (min bytes.length capacity) = bytes.drop capacity :=
      List.drop_eq_drop_iff.2 (by omega)
    have hnonempty : bytes.take capacity ≠ [] := by
      simp [hne, Nat.ne_of_gt hcapacity]
    have hless : bytes.length - (bytes.take capacity).length = (bytes.drop capacity).length := by
      rw [List.length_take, List.length_drop]
      omega
    rw [hpiece] at hread
    rw [hrest] at hleft
    rw [measured_round hlength, hread, if_neg hnonempty, hless, ih hleft]

/-- From its start, a body that is held whole is sent in the pieces of its content. -/
theorem sent_reset {capacity : Nat} (hcapacity : 0 < capacity) {s : Source} {content : Bytes}
    (h : s.content? = some content) : s.reset.sent capacity = pieces capacity content := by
  unfold sent
  rw [framing_reset h]
  exact measured_of_unread hcapacity (s.unread?_reset.trans h)

end Source

/-! ## The lines -/

/-- Lines with their ends. -/
def textLines (lines : List String) : Bytes :=
  Reply.lines (lines.map Utf8.ofString)

@[simp] theorem textLines_nil : textLines [] = [] := rfl

@[simp] theorem textLines_append (lines later : List String) :
    textLines (lines ++ later) = textLines lines ++ textLines later := by
  simp [textLines, Reply.lines]

theorem textLines_cons (line : String) (lines : List String) :
    textLines (line :: lines) = Utf8.ofString line ++ crlf ++ textLines lines := rfl

/-- The line that says what is asked for. -/
def requestLine (method : Method) (url : Url) : String :=
  method.text ++ " " ++ url.path ++ " HTTP/1.1"

/-- The line that says whom it is asked of. -/
def hostLine (url : Url) : String :=
  "Host: " ++ url.host ++ ":" ++ Decimal.text url.port.toNat

/-- The lines about a body, if there is one. -/
def Source.lines (source : Option Source) : List String :=
  match source with
  | none => []
  | some s =>
    ["Content-Length: " ++ Decimal.text (s.content?.getD []).length]
      ++ s.contentType.toList.map ("Content-Type: " ++ ·)

/-- The content of a body, if there is one. -/
def Source.text (source : Option Source) : Bytes :=
  (source.bind Source.content?).getD []

namespace Client

/-- The lines that every request of a client has with the same body. -/
def commonLines (c : Client) (source : Option Source) : List String :=
  ["Connection: keep-alive"]
    ++ c.authorization.toList.map ("Authorization: Basic " ++ ·)
    ++ c.headers.map (fun header => header.name ++ ": " ++ header.value)
    ++ Source.lines source

/-- The head of a request, with the empty line at its end. -/
def headText (c : Client) (method : Method) (url : Url) (source : Option Source) : Bytes :=
  textLines (requestLine method url :: hostLine url :: c.commonLines source) ++ crlf

end Client

/-! ## The text of a head -/

namespace RequestHead

theorem ofString_line (name value : String) :
    Utf8.ofString (line name value) = textLines [name ++ ": " ++ value] := by
  have hcrlf : Utf8.ofString "\r\n" = crlf := by decide +kernel
  rw [line, Utf8.ofString_append, hcrlf]
  simp [textLines, Reply.lines]

/-- The headers of the caller as lines of text, in the order in which they were set. -/
theorem ofString_headers (headers : List Header) :
    Utf8.ofString (String.join (headers.map fun header => line header.name header.value))
      = textLines (headers.map fun header => header.name ++ ": " ++ header.value) := by
  induction headers with
  | nil => rfl
  | cons header headers ih =>
    rw [List.map_cons, String.join_cons, Utf8.ofString_append, ih, ofString_line,
      ← textLines_append]
    rfl

/-- The line that says how a body is framed. -/
def framingLine : Framing → String
  | .chunked => "Transfer-Encoding: chunked"
  | .length n => "Content-Length: " ++ Decimal.text n

/-- The lines behind the one that names the host. -/
def tailLines (h : RequestHead) : List String :=
  ["Connection: keep-alive"]
    ++ h.authorization.toList.map ("Authorization: Basic " ++ ·)
    ++ h.headers.map (fun header => header.name ++ ": " ++ header.value)
    ++ h.body.toList.flatMap fun (framing, contentType) =>
        framingLine framing :: contentType.toList.map ("Content-Type: " ++ ·)

/-- The lines of a head. -/
def lines (h : RequestHead) : List String :=
  requestLine h.method h.url :: hostLine h.url :: h.tailLines

/-- The lines that tell how the body comes, and of which type it is if it has one. -/
theorem ofString_bodyLines (framing : Framing) (contentType : Option String) :
    Utf8.ofString (bodyLines framing contentType)
      = textLines (framingLine framing :: contentType.toList.map ("Content-Type: " ++ ·)) := by
  show Utf8.ofString (_ ++ _) = textLines ([framingLine framing] ++ _)
  rw [Utf8.ofString_append, textLines_append]
  congr 1
  · cases framing with
    | length n => exact ofString_line "Content-Length" _
    | chunked => exact ofString_line "Transfer-Encoding" "chunked"
  · cases contentType with
    | none => rfl
    | some value => exact ofString_line "Content-Type" value

/-- The lines that do not depend on the address. -/
theorem ofString_tail (h : RequestHead) : Utf8.ofString h.tail = textLines h.tailLines ++ crlf := by
  unfold tail tailLines
  simp only [Utf8.ofString_append, textLines_append]
  refine congrArg₂ (· ++ ·) (congrArg₂ (· ++ ·) (congrArg₂ (· ++ ·) (congrArg₂ (· ++ ·)
    ?connection ?authorization) ?headers) ?body) ?empty
  case connection => exact ofString_line "Connection" "keep-alive"
  case authorization =>
    cases h.authorization with
    | none => rfl
    | some token =>
      have hvalue : "Authorization" ++ ": " ++ ("Basic " ++ token)
          = "Authorization: Basic " ++ token := by
        rw [← String.append_assoc]
        rfl
      exact (ofString_line "Authorization" ("Basic " ++ token)).trans
        (congrArg (fun line => textLines [line]) hvalue)
  case headers => exact ofString_headers h.headers
  case body =>
    cases h.body with
    | none => rfl
    | some body =>
      exact (ofString_bodyLines body.1 body.2).trans (congrArg textLines (List.append_nil _).symm)
  case empty => decide +kernel

/-- A head is its lines and an empty one. -/
theorem ofString_text (h : RequestHead) : Utf8.ofString h.text = textLines h.lines ++ crlf := by
  have hline : Utf8.ofString (h.method.text ++ " " ++ h.url.path ++ " HTTP/1.1\r\n")
      = Utf8.ofString (requestLine h.method h.url) ++ crlf := by
    have hcut : " HTTP/1.1\r\n" = " HTTP/1.1" ++ "\r\n" := rfl
    have hcrlf : Utf8.ofString "\r\n" = crlf := by decide +kernel
    rw [hcut, ← String.append_assoc, Utf8.ofString_append, hcrlf, requestLine]
  have hhost : Utf8.ofString (line "Host" (h.url.host ++ ":" ++ Decimal.text h.url.port.toNat))
      = Utf8.ofString (hostLine h.url) ++ crlf := by
    have hvalue : "Host" ++ ": " ++ (h.url.host ++ ":" ++ Decimal.text h.url.port.toNat)
        = hostLine h.url := by
      rw [← String.append_assoc, ← String.append_assoc]
      rfl
    rw [ofString_line, hvalue, textLines_cons, textLines_nil, List.append_nil]
  rw [text, Utf8.ofString_append, Utf8.ofString_append, hline, hhost, h.ofString_tail, lines,
    textLines_cons, textLines_cons]
  simp only [List.append_assoc]

end RequestHead

namespace Client

/-- The lines of a request whose body is held whole. -/
theorem lines_requestHead (c : Client) (method : Method) (url : Url) {source : Option Source}
    (h : ∀ s ∈ source, s.content?.isSome) :
    (c.requestHead method url (source.map Source.reset)).lines
      = requestLine method url :: hostLine url :: c.commonLines source := by
  cases source with
  | none => rfl
  | some s =>
    obtain ⟨content, hcontent⟩ := Option.isSome_iff_exists.1 (h s rfl)
    have hbody : Source.lines (some s)
        = RequestHead.framingLine s.reset.framing
          :: s.reset.contentType.toList.map ("Content-Type: " ++ ·) := by
      rw [Source.framing_reset hcontent, Source.contentType_reset, Source.lines, hcontent]
      rfl
    rw [commonLines, hbody]
    exact congrArg (fun body => _ :: _ :: (_ ++ body)) (List.append_nil _)

/-- What is sent in front of a body that is held whole. -/
theorem ofString_requestHead (c : Client) (method : Method) (url : Url) {source : Option Source}
    (h : ∀ s ∈ source, s.content?.isSome) :
    Utf8.ofString (c.requestHead method url (source.map Source.reset)).text
      = c.headText method url source := by
  rw [RequestHead.ofString_text, c.lines_requestHead method url h, headText]

/-! ## What is sent -/

/-- The pieces in which a request is sent whose body is held whole: those of the head, and those of
the body behind it. No piece has bytes of both. -/
theorem requestPieces_eq (c : Client) (method : Method) (url : Url) {source : Option Source}
    (peer : Peer) (timeout : Nat) (h : ∀ s ∈ source, s.content?.isSome) :
    (c.startExchange peer (source.map Source.reset) timeout).requestPieces
        (c.requestHead method url (source.map Source.reset))
      = pieces c.window.capacity (c.headText method url source)
        ++ pieces c.window.capacity (Source.text source) := by
  have hbody : ((source.map Source.reset).map (Source.sent c.window.capacity)).getD []
      = pieces c.window.capacity (Source.text source) := by
    cases source with
    | none =>
      have hnil : pieces c.window.capacity [] = [] := by rw [pieces, dif_pos (.inr rfl)]
      exact hnil.symm
    | some s =>
      obtain ⟨content, hcontent⟩ := Option.isSome_iff_exists.1 (h s rfl)
      have htext : Source.text (some s) = content := congrArg (Option.getD · []) hcontent
      rw [htext]
      exact Source.sent_reset c.window.capacity_pos hcontent
  rw [← c.ofString_requestHead method url h, ← hbody]
  rfl

section Attempt

variable (c : Client) (method : Method) {address : String} {source : Option Source} (follow : Bool)
  (timeout : Nat) {url : Url} {peer : Peer} {later : List (Option Peer)}

/-- What becomes of an attempt that gets a connection is told by what becomes of the pieces of its
request. -/
theorem posts_request (haddress : Url.parse address = .ok url) (hhttp : url.isHttp = true)
    (hnetwork : c.network = some peer :: later) :
    let t := c.attempt method address source follow timeout
    ∃ sends replies failure,
      t.events = .connect url.host url.port true :: (sends ++ replies ++ [.close]) ∧
      Posts timeout ((c.startExchange peer (source.map Source.reset) timeout).requestPieces
        (c.requestHead method url (source.map Source.reset))) sends failure ∧
      (∀ e ∈ replies, e.IsReply) ∧
      ∀ e ∈ failure, replies = [] ∧ t.result = .error e := by
  intro t
  obtain ⟨sends, replies, failure, htrace, hposts, hreplies, hfailure⟩ :=
    Exchange.posts_converse (c.requestHead method url (source.map Source.reset)) follow
      (x := c.startExchange peer (source.map Source.reset) timeout) rfl
  have ht : t = _ := (attempt_of_connection haddress hhttp hnetwork).trans
    (congrArg (Transaction.after _) (exchangeWith_eq _ _ _ _ _ _))
  refine ⟨sends, replies, failure, ?_, hposts, hreplies, fun e he => ?_⟩
  · rw [ht]
    exact congrArg (fun trace => .connect url.host url.port true :: (trace ++ [.close])) htrace
  · obtain ⟨hnone, hresult⟩ := hfailure e he
    rw [ht]
    exact ⟨hnone, hresult⟩

/-- The same with a body that is held whole. -/
theorem posts_attempt (haddress : Url.parse address = .ok url) (hhttp : url.isHttp = true)
    (hnetwork : c.network = some peer :: later) (hheld : ∀ s ∈ source, s.content?.isSome) :
    let t := c.attempt method address source follow timeout
    ∃ sends replies failure,
      t.events = .connect url.host url.port true :: (sends ++ replies ++ [.close]) ∧
      Posts timeout (pieces c.window.capacity (c.headText method url source)
        ++ pieces c.window.capacity (Source.text source)) sends failure ∧
      (∀ e ∈ replies, e.IsReply) ∧
      ∀ e ∈ failure, replies = [] ∧ t.result = .error e := by
  have hposts :=
    @posts_request c method address source follow timeout url peer later haddress hhttp hnetwork
  rwa [requestPieces_eq c method url peer timeout hheld] at hposts

theorem flatten_request (head body : Bytes) :
    (pieces c.window.capacity head ++ pieces c.window.capacity body).flatten = head ++ body := by
  rw [List.flatten_append, flatten_pieces c.window.capacity_pos,
    flatten_pieces c.window.capacity_pos]

/-- Only the request of an attempt offers anything. -/
theorem offers_attempt (host : String) (port : UInt16) (sends : List Event)
    {replies : List Event} (hreplies : ∀ e ∈ replies, e.IsReply) :
    offers (.connect host port true :: (sends ++ replies ++ [.close])) = offers sends ∧
      takenBytes (.connect host port true :: (sends ++ replies ++ [.close]))
        = takenBytes sends := by
  obtain ⟨hnone, hnothing⟩ := offers_of_replies hreplies
  constructor
  · show offers (sends ++ replies ++ [.close]) = _
    rw [offers_append, offers_append, hnone]
    simp [offers, Event.offered?]
  · show takenBytes (sends ++ replies ++ [.close]) = _
    rw [takenBytes_append, takenBytes_append, hnothing]
    simp [takenBytes, Event.takenBytes]

theorem allTaken_sends {sends replies : List Event} {host : String} {port : UInt16}
    (h : AllTaken (.connect host port true :: (sends ++ replies ++ [.close]))) : AllTaken sends :=
  fun e he => h e (List.mem_cons_of_mem _ (List.mem_append_left _ (List.mem_append_left _ he)))

/-- Of an attempt the peer takes its request, as far as it takes it. -/
theorem taken_of_posts {log sends replies : List Event} {host : String} {port : UInt16}
    {parts : List Bytes} {failure : Option TransferError}
    (hlog : log = .connect host port true :: (sends ++ replies ++ [.close]))
    (hposts : Posts timeout parts sends failure) (hreplies : ∀ e ∈ replies, e.IsReply) :
    takenBytes log <+: parts.flatten ∧ (AllTaken log → takenBytes log = parts.flatten) := by
  have htaken : takenBytes log = takenBytes sends :=
    hlog ▸ (offers_attempt host port sends hreplies).2
  rw [htaken]
  refine ⟨hposts.prefixes.2, fun hall => ?_⟩
  have hsends : AllTaken sends := allTaken_sends (hlog ▸ hall)
  rw [hposts.eq_of_allTaken hsends, takenBytes_posted]

/-- Only the request of an attempt sends anything. -/
theorem send_mem_attempt {sends replies : List Event} {host : String} {port : UInt16}
    (hreplies : ∀ e ∈ replies, e.IsReply) {bytes : Bytes} {wait : Nat} {accepted : Option Nat}
    (h : .send bytes wait accepted
      ∈ .connect host port true :: (sends ++ replies ++ [.close])) :
    .send bytes wait accepted ∈ sends := by
  have hreply : .send bytes wait accepted ∉ replies := fun h => hreplies _ h
  simpa [hreply] using h

/-- An attempt that gets a connection sends the lines of its head and the body, in pieces of the size
of the working buffer. A piece that is not taken whole is the last thing that is done on the
connection, and its failure is that of the attempt. -/
theorem attempt_sends_text (haddress : Url.parse address = .ok url) (hhttp : url.isHttp = true)
    (hnetwork : c.network = some peer :: later) (hheld : ∀ s ∈ source, s.content?.isSome) :
    let t := c.attempt method address source follow timeout
    let text := c.headText method url source ++ Source.text source
    ∃ headPieces bodyPieces,
      CutInto c.window.capacity (c.headText method url source) headPieces ∧
      CutInto c.window.capacity (Source.text source) bodyPieces ∧
      (AllTaken t.events →
        takenBytes t.events = text ∧ offers t.events = headPieces ++ bodyPieces) ∧
      ∀ bytes wait accepted, .send bytes wait accepted ∈ t.events →
        accepted ≠ some bytes.length →
        takenBytes t.events <+: text ∧ offers t.events <+: headPieces ++ bodyPieces ∧
        t.result = .error (sendError accepted) ∧
        ∃ before : List Bytes, t.events = .connect url.host url.port true ::
          (before.map (Event.posted timeout) ++ [.send bytes wait accepted, .close]) := by
  intro t text
  obtain ⟨sends, replies, failure, hevents, hposts, hreplies, hfailure⟩ :=
    c.posts_attempt method follow timeout haddress hhttp hnetwork hheld
  have hevents : t.events = _ := hevents
  obtain ⟨hoffers, htaken⟩ := offers_attempt url.host url.port sends hreplies
  rw [← hevents] at hoffers htaken
  have hflatten : _ = text := c.flatten_request (c.headText method url source) (Source.text source)
  refine ⟨_, _, cutInto_pieces c.window.capacity_pos _, cutInto_pieces c.window.capacity_pos _,
    ?_, ?_⟩
  · intro hall
    rw [hevents] at hall
    have hsends : AllTaken sends := allTaken_sends hall
    rw [hoffers, htaken, hposts.eq_of_allTaken hsends, takenBytes_posted, offers_posted]
    exact ⟨hflatten, rfl⟩
  · intro bytes wait accepted hmem hless
    have hsend : .send bytes wait accepted ∈ sends := by
      rw [hevents] at hmem
      exact send_mem_attempt hreplies hmem
    obtain ⟨before, rfl, rfl⟩ := hposts.eq_of_not_taken hsend hless
    obtain ⟨rfl, hresult⟩ := hfailure _ rfl
    obtain ⟨hfront, htext⟩ := hposts.prefixes
    rw [hoffers, htaken]
    refine ⟨hflatten ▸ htext, hfront, hresult, before, ?_⟩
    rw [hevents]
    simp

end Attempt

/-- A form with a blank in a value, sent with credentials and a header of the caller through a
buffer of sixteen bytes. -/
theorem attempt_sends_text_of_form :
    let c := { new 16 with
      network := [some { arrivals := [] }]
      authorization := some "dTpw"
      headers := [⟨"X-Id", "7"⟩] }
    let t := c.attempt .post "http://h/p" (some (.form (.ofPairs [("a", "b c")]))) false 1000
    AllTaken t.events ∧ takenBytes t.events
      = Utf8.ofString ("POST /p HTTP/1.1\r\nHost: h:80\r\nConnection: keep-alive\r\n"
        ++ "Authorization: Basic dTpw\r\nX-Id: 7\r\nContent-Length: 5\r\n"
        ++ "Content-Type: application/x-www-form-urlencoded\r\n\r\na=b+c") := by
  intro c t
  have haddress : Url.parse "http://h/p" = .ok ⟨"http", "h", 80, "/p"⟩ := rfl
  have hheld : ∀ s ∈ some (Source.form (.ofPairs [("a", "b c")])), s.content?.isSome := by
    rintro _ ⟨⟩
    rfl
  obtain ⟨_, _, -, -, hwhole, -⟩ :=
    attempt_sends_text c .post false 1000 haddress (by decide +kernel) rfl hheld
  have htaken : AllTaken t.events := by decide +kernel
  exact ⟨htaken, (hwhole htaken).1.trans (by decide +kernel)⟩

end Client

end DeviceHttp
