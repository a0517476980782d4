import DeviceHttp.Proofs.Transfer.ChunkGrammar
import DeviceHttp.Proofs.Transfer.HeaderLines

/-!
# Responses as they are written

A response is a status line, header lines and a body, and `Reply.Final` is one that a client takes as
the end of its transaction. Two things can be behind a connection when it comes: the whole response
and something that follows it, or a part of the response and the end of the stream. The reader takes
the one to its end and leaves the rest alone (`Feed.readResponse_of_reply`); of the other it reports
the end, and the sink has what the part holds of the body (`Feed.readResponse_of_cut`).
-/

namespace DeviceHttp

open Window (crlf HoldsLine)

/-- The body of a response as it is written. -/
inductive Reply.Body
  | plain (content : Bytes)
  | chunks (chunks : List Chunk) (last : Bytes)
  deriving DecidableEq, Repr

/-- A response as it is written: lines without their ends, and a body. -/
structure Reply where
  statusLine : Bytes
  headers : List Bytes
  body : Reply.Body
  deriving DecidableEq, Repr

namespace Reply

namespace Body

/-- A body as it is sent. -/
def bytes : Body → Bytes
  | plain content => content
  | chunks cs last => Chunk.stream cs ++ last ++ crlf

/-- What a body holds. -/
def content : Body → Bytes
  | plain content => content
  | chunks cs _ => Chunk.body cs

/-- The content that lies in the first `k` bytes of a body. -/
def contained : Body → Nat → Bytes
  | plain content, k => content.take k
  | chunks cs _, k => Chunk.contained cs k

/-- The body is written in the framing that was announced. -/
inductive Framed (capacity : Nat) : Framing → Body → Prop
  | plain (content : Bytes) : Framed capacity (.length content.length) (plain content)
  | chunks {cs : List Chunk} {last : Bytes} (valid : ∀ c ∈ cs, c.Valid capacity)
    (endLine : Chunk.EndLine capacity last) : Framed capacity .chunked (chunks cs last)

theorem contained_zero (b : Body) : b.contained 0 = [] := by
  cases b with
  | plain content => rfl
  | chunks cs last => exact Chunk.contained_zero cs

end Body

/-- Lines as they are sent. -/
def lines (ls : List Bytes) : Bytes :=
  ls.flatMap (· ++ crlf)

/-- The block of headers with the empty line behind it. -/
def headerBlock (r : Reply) : Bytes :=
  lines r.headers ++ crlf

/-- Everything in front of the body. -/
def head (r : Reply) : Bytes :=
  r.statusLine ++ crlf ++ r.headerBlock

/-- A response as it is sent. -/
def bytes (r : Reply) : Bytes :=
  r.head ++ r.body.bytes

/-- The content of a response. -/
def content (r : Reply) : Bytes :=
  r.body.content

/-- The content that lies in the first `k` bytes of a response. -/
def contained (r : Reply) (k : Nat) : Bytes :=
  r.body.contained (k - r.head.length)

/-- A response that ends a transaction: its lines fit and can be read, its status is accepted, it
names no location that is to be followed, and its body is framed as it announces. -/
structure Final (capacity : Nat) (follow : Bool) (r : Reply) : Prop where
  statusFits : HoldsLine capacity r.statusLine
  status : ∃ code, StatusLine.parse r.statusLine = .ok code ∧ Client.accepts code = true
  headersFit : ∀ line ∈ r.headers, HoldsLine capacity line ∧ line ≠ []
  block : ∃ block, r.headers.foldlM HeaderBlock.addLine {} = .ok block ∧
    (follow = true → block.location = none) ∧ Body.Framed capacity block.framing r.body

theorem lines_cons (line : Bytes) (ls : List Bytes) :
    lines (line :: ls) = line ++ crlf ++ lines ls :=
  rfl

end Reply

namespace HeaderBlock

/-- A block that was told a location keeps one. -/
theorem location_eq_none_of_addLine {block later : HeaderBlock} {line : Bytes}
    (h : block.addLine line = .ok later) (hl : later.location = none) : block.location = none := by
  rcases (adds_of_addLine h).location_cases with hkept | ⟨value, -, -, hvalue⟩
  · rw [← hkept, hl]
  · cases hl.symm.trans hvalue

/-- A location that a block has is never lost by later lines, so if there is none in the end there
was none before. -/
theorem location_eq_none_of_foldlM {block later : HeaderBlock} {ls : List Bytes}
    (h : ls.foldlM addLine block = .ok later) (hl : later.location = none) :
    block.location = none := by
  induction ls generalizing block with
  | nil =>
    cases h
    exact hl
  | cons line ls ih =>
    obtain ⟨next, hnext, hrest⟩ := foldlM_addLine_cons h
    exact location_eq_none_of_addLine hnext (ih hrest)

end HeaderBlock

namespace Feed

variable {f : Feed}

/-! ## Whole responses -/

theorem readStatus_of_line {line rest : Bytes} {code : Nat} (hline : HoldsLine f.capacity line)
    (hcode : StatusLine.parse line = .ok code) (hbytes : f.bytes = line ++ crlf ++ rest) :
    f.readStatus = .ok code { f with bytes := rest, status := code } := by
  rw [readStatus, readLine_of_line hline hbytes]
  show takeStatus line.length f = _
  rw [takeStatus, front_of_line hbytes, hcode, consume_of_line hbytes]

section Headers

variable {follow : Bool} {block later : HeaderBlock} {ls : List Bytes}

/-- One line of a block that goes on. -/
theorem readHeaders_cons {line rest : Bytes} {next : HeaderBlock}
    (hline : HoldsLine f.capacity line) (hne : line ≠ []) (hnext : block.addLine line = .ok next)
    (hstay : follow = true → next.location = none) (hbytes : f.bytes = line ++ crlf ++ rest) :
    f.readHeaders follow block
      = readHeaders follow next
          { f with bytes := rest, location := next.location.or f.location } := by
  have hlength : line.length ≠ 0 := by
    intro h
    exact hne (List.length_eq_zero_iff.1 h)
  rw [← front_of_line hbytes] at hnext
  rw [readHeaders_line (readLine_of_line hline hbytes) hlength hnext hstay, consume_of_line hbytes]

/-- A block that is there whole is read to its end, line by line, and the sink is told how the body
comes. -/
theorem readHeaders_of_lines {rest : Bytes}
    (hls : ∀ line ∈ ls, HoldsLine f.capacity line ∧ line ≠ []) (hblank : HoldsLine f.capacity [])
    (hfold : ls.foldlM HeaderBlock.addLine block = .ok later)
    (hstay : follow = true → later.location = none)
    (hkept : block.location.or f.location = f.location)
    (hbytes : f.bytes = Reply.lines ls ++ crlf ++ rest) :
    f.readHeaders follow block
      = .ok (.body later.framing) (deliverAll later.announcement
          { f with bytes := rest, location := later.location.or f.location }) := by
  induction ls generalizing f block with
  | nil =>
    obtain rfl : block = later := Except.ok.inj hfold
    have hempty : f.bytes = [] ++ crlf ++ rest := hbytes
    have hconsume : f.consume 2 = { f with bytes := rest } := consume_of_line hempty
    rw [readHeaders_blank (readLine_of_line hblank hempty), hconsume, hkept]
  | cons line ls ih =>
    rcases List.forall_mem_cons.1 hls with ⟨⟨hline, hne⟩, hrest⟩
    obtain ⟨next, hnext, hlater⟩ := HeaderBlock.foldlM_addLine_cons hfold
    have hgo : follow = true → next.location = none := by
      intro h
      exact HeaderBlock.location_eq_none_of_foldlM hlater (hstay h)
    -- a location of this line is kept unless a later line names one
    have hlast : later.location.or (next.location.or f.location)
        = later.location.or f.location := by
      cases hl : later.location with
      | some location => rfl
      | none => rw [HeaderBlock.location_eq_none_of_foldlM hlater hl, Option.none_or]
    have hor : next.location.or (next.location.or f.location) = next.location.or f.location := by
      cases next.location <;> rfl
    rw [Reply.lines_cons, List.append_assoc, List.append_assoc,
      ← List.append_assoc (Reply.lines ls)] at hbytes
    rw [readHeaders_cons hline hne hnext hgo hbytes]
    rw [ih (f := { f with
      bytes := Reply.lines ls ++ crlf ++ rest, location := next.location.or f.location })
      hrest hblank hlater hor rfl, hlast]

/-- A block of headers that is cut is reported as the stream ends, and nothing is announced. The cut
lies in one of the lines, and those in front of it are read. -/
theorem readHeaders_of_cut {k : Nat} (hls : ∀ line ∈ ls, HoldsLine f.capacity line ∧ line ≠ [])
    (hblank : HoldsLine f.capacity [])
    (hfold : ls.foldlM HeaderBlock.addLine block = .ok later)
    (hstay : follow = true → later.location = none)
    (hk : k < (Reply.lines ls ++ crlf).length)
    (hbytes : f.bytes = (Reply.lines ls ++ crlf).take k) :
    ∃ g, f.readHeaders follow block = .error f.ending.error g ∧ g.outline = f.outline := by
  induction ls generalizing f block k with
  | nil =>
    have hempty : f.bytes = ([] ++ crlf ++ []).take k := hbytes
    exact ⟨f, readHeaders_of_error (readLine_of_cut hblank hempty hk), rfl⟩
  | cons line ls ih =>
    rcases List.forall_mem_cons.1 hls with ⟨⟨hline, hne⟩, hrest⟩
    obtain ⟨next, hnext, hlater⟩ := HeaderBlock.foldlM_addLine_cons hfold
    have hgo : follow = true → next.location = none := by
      intro h
      exact HeaderBlock.location_eq_none_of_foldlM hlater (hstay h)
    rw [Reply.lines_cons, List.append_assoc] at hbytes hk
    by_cases hcut : k < line.length + 2
    · exact ⟨f, readHeaders_of_error (readLine_of_cut hline hbytes hcut), rfl⟩
    · rw [Window.take_of_line _ (Nat.le_of_not_lt hcut)] at hbytes
      have hlater' : k - (line.length + 2) < (Reply.lines ls ++ crlf).length := by
        rw [List.length_append, List.length_append] at hk
        simp only [crlf, List.length_cons, List.length_nil] at hk ⊢
        omega
      rw [readHeaders_cons hline hne hnext hgo hbytes]
      exact ih (f := { f with
        bytes := (Reply.lines ls ++ crlf).take (k - (line.length + 2)),
        location := next.location.or f.location })
        hrest hblank hlater hlater' rfl

end Headers

/-! ## Bodies -/

/-- A body that is framed as announced is read to its end: in chunks, up to its length, or up to the
end of the stream. The sink has its content, and the rest of the stream is left. -/
theorem readBody_of_framed {framing : Framing} {b : Reply.Body} {rest : Bytes}
    (hb : b.Framed f.capacity framing) (hbytes : f.bytes = b.bytes ++ rest) :
    ∃ g, f.readBody framing = .ok () g ∧ g.bytes = rest ∧ g.total = f.total ∧
      Delivery.written (deliveries g.outline)
        = Delivery.written (deliveries f.outline) ++ b.content := by
  cases hb with
  | plain content =>
    refine ⟨_, copy_of_append hbytes, rfl, rfl, ?_⟩
    show Delivery.written (deliveries (f.outline ++ bytewise content)) = _
    rw [deliveries_append, Delivery.written_append, written_bytewise]
    rfl
  | @chunks cs _ hvalid hlast =>
    refine ⟨_, readChunks_of_accepts ⟨hvalid, _, hlast, hbytes⟩, rfl, rfl, ?_⟩
    show Delivery.written
      (deliveries (f.outline ++ bytewise (Chunk.body cs) ++ outline [.deliver (.write [])])) = _
    rw [deliveries_append, deliveries_append, Delivery.written_append, Delivery.written_append,
      written_bytewise]
    exact List.append_nil _

/-- Of a body that is cut the sink has what is there, and no end of it. This is so for chunks as for
a body of known length. -/
theorem readBody_of_cut {framing : Framing} {b : Reply.Body} {k : Nat}
    (hb : b.Framed f.capacity framing) (hk : k < b.bytes.length)
    (hbytes : f.bytes = b.bytes.take k) :
    ∃ g, f.readBody framing = .error f.ending.error g ∧
      g.outline = f.outline ++ bytewise (b.contained k) := by
  cases hb with
  | plain content =>
    have hshort : f.bytes.length < content.length := by
      have hk : k < content.length := hk
      rw [hbytes, List.length_take]
      exact Nat.lt_of_le_of_lt (Nat.min_le_left _ _) hk
    refine ⟨_, copy_of_short hshort, ?_⟩
    rw [hbytes]
    rfl
  | chunks hvalid hlast =>
    obtain ⟨whole, part, hrejects, hcontained⟩ :=
      Chunk.rejects_of_cut f.ending hvalid hlast hk
    obtain ⟨g, hg, hrecord⟩ := readChunks_of_rejects (hbytes ▸ hrejects)
    rw [hcontained] at hrecord
    exact ⟨g, hg, congrArg Record.outline hrecord⟩

/-! ## Responses -/

/-- What announces a body is no part of it. -/
theorem written_announcement (block : HeaderBlock) :
    Delivery.written (deliveries (outline (block.announcement.map .deliver))) = [] ∧
      Delivery.endMarks (deliveries (outline (block.announcement.map .deliver))) = 0 := by
  unfold HeaderBlock.announcement
  cases block.framing <;> cases block.contentType <;> exact ⟨rfl, rfl⟩

section Response

variable {follow : Bool} {r : Reply}

/-- Behind a status that is accepted come the headers. -/
theorem readResponse_of_line {line rest : Bytes} {code : Nat} (hline : HoldsLine f.capacity line)
    (hcode : StatusLine.parse line = .ok code) (haccepted : Client.accepts code = true)
    (hbytes : f.bytes = line ++ crlf ++ rest) :
    f.readResponse follow
      = andThen (readHeaders follow {} { f with bytes := rest, status := code }) finish := by
  rw [readResponse, readStatus_of_line hline hcode hbytes]
  exact if_pos haccepted

/-- A response that is there whole is read to its end and not further; the sink has its content and
nothing else of it. -/
theorem readResponse_of_reply {rest : Bytes} (hr : r.Final f.capacity follow)
    (hbytes : f.bytes = r.bytes ++ rest) :
    ∃ g, f.readResponse follow = .ok .complete g ∧ g.bytes = rest ∧ g.total = f.total ∧
      Delivery.written (deliveries g.outline)
        = Delivery.written (deliveries f.outline) ++ r.content := by
  rcases hr with ⟨hline, ⟨code, hcode, haccepted⟩, hheaders, block, hfold, hstay, hbody⟩
  have hwhole : f.bytes = r.statusLine ++ crlf
      ++ (Reply.lines r.headers ++ crlf ++ (r.body.bytes ++ rest)) := by
    rw [hbytes, Reply.bytes, Reply.head, Reply.headerBlock]
    simp only [List.append_assoc]
  have hblock := readHeaders_of_lines
    (f := { f with
      bytes := Reply.lines r.headers ++ crlf ++ (r.body.bytes ++ rest), status := code })
    hheaders hline.empty hfold hstay rfl rfl
  obtain ⟨g, hg, hrest, htotal, hwritten⟩ := readBody_of_framed
    (f := deliverAll block.announcement
      { f with
        bytes := r.body.bytes ++ rest, status := code, location := block.location.or f.location })
    hbody rfl
  refine ⟨g, ?_, hrest, htotal, ?_⟩
  · rw [readResponse_of_line hline hcode haccepted hwhole, hblock]
    show andThen (readBody block.framing _) _ = _
    rw [hg]
    rfl
  · have hannounced : Delivery.written
        (deliveries (f.outline ++ outline (block.announcement.map .deliver)))
        = Delivery.written (deliveries f.outline) := by
      rw [deliveries_append, Delivery.written_append, (written_announcement block).1,
        List.append_nil]
    exact hwritten.trans (congrArg (· ++ r.content) hannounced)

/-- A response that is cut is reported as the stream ends. The sink has the content that is there,
and no end of it. -/
theorem readResponse_of_cut {k : Nat} (hr : r.Final f.capacity follow) (hk : k < r.bytes.length)
    (hbytes : f.bytes = r.bytes.take k) :
    ∃ g, f.readResponse follow = .error f.ending.error g ∧
      Delivery.written (deliveries g.outline)
        = Delivery.written (deliveries f.outline) ++ r.contained k ∧
      Delivery.endMarks (deliveries g.outline) = Delivery.endMarks (deliveries f.outline) := by
  rcases hr with ⟨hline, ⟨code, hcode, haccepted⟩, hheaders, block, hfold, hstay, hbody⟩
  have hhead : r.head.length = r.statusLine.length + 2 + r.headerBlock.length := by
    simp [Reply.head, crlf]
    omega
  have hnone (h : k ≤ r.head.length) : r.contained k = [] := by
    rw [Reply.contained, Nat.sub_eq_zero_of_le h, Reply.Body.contained_zero]
  rw [Reply.bytes, Reply.head, List.append_assoc] at hbytes
  by_cases hstatus : k < r.statusLine.length + 2
  · -- in the status line
    refine ⟨f, ?_, by rw [hnone (by omega), List.append_nil], rfl⟩
    rw [readResponse, readStatus, readLine_of_cut hline hbytes hstatus]
    rfl
  · rw [Window.take_of_line _ (Nat.le_of_not_lt hstatus), List.take_append] at hbytes
    by_cases hblock : k - (r.statusLine.length + 2) < r.headerBlock.length
    · -- in the headers
      rw [Nat.sub_eq_zero_of_le (Nat.le_of_lt hblock), List.take_zero, List.append_nil] at hbytes
      obtain ⟨g, hg, houtline⟩ := readHeaders_of_cut
        (f := { f with
          bytes := r.headerBlock.take (k - (r.statusLine.length + 2)), status := code })
        hheaders hline.empty hfold hstay hblock rfl
      refine ⟨g, ?_, ?_, by rw [houtline]⟩
      · rw [readResponse_of_line hline hcode haccepted hbytes, hg]
        rfl
      · rw [houtline, hnone (by omega), List.append_nil]
    · -- in the body
      rw [List.take_of_length_le (Nat.le_of_not_lt hblock), Nat.sub_sub, ← hhead] at hbytes
      have hcut : k - r.head.length < r.body.bytes.length := by
        rw [Reply.bytes, List.length_append] at hk
        omega
      have hlines := readHeaders_of_lines
        (f := { f with
          bytes := r.headerBlock ++ r.body.bytes.take (k - r.head.length), status := code })
        hheaders hline.empty hfold hstay rfl rfl
      obtain ⟨g, hg, houtline⟩ := readBody_of_cut
        (f := deliverAll block.announcement
          { f with
            bytes := r.body.bytes.take (k - r.head.length), status := code,
            location := block.location.or f.location })
        hbody hcut rfl
      have houtline : g.outline = f.outline ++ outline (block.announcement.map .deliver)
          ++ bytewise (r.contained k) := houtline
      obtain ⟨hwritten, hmarks⟩ := written_announcement block
      refine ⟨g, ?_, ?_, ?_⟩
      · rw [readResponse_of_line hline hcode haccepted hbytes, hlines]
        show andThen (readBody block.framing _) _ = _
        rw [hg]
        rfl
      · rw [houtline, deliveries_append, deliveries_append, Delivery.written_append,
          Delivery.written_append, hwritten, written_bytewise, List.append_nil]
      · rw [houtline, deliveries_append, deliveries_append, Delivery.endMarks_append,
          Delivery.endMarks_append, hmarks, endMarks_bytewise, Nat.add_zero]

end Response

end Feed

end DeviceHttp
