import DeviceHttp.Proofs.Transfer.Handover
import DeviceHttp.Proofs.Transfer.Heads
import DeviceHttp.Proofs.Transfer.Reading

/-!
# What a block of headers comes to

A block of headers is read line by line through a window; what it comes to can be said of its lines
alone. `Framing.Told` is the framing that the lines tell, in whatever order they come, and the last
line of a name is the one that counts for everything else. A block of which no location is followed
is read to its end and announced once, or fails at its first faulty line before the sink is called
(`Exchange.readHeaders_tells_lines`).
-/

namespace DeviceHttp

open HeaderLine (Says SpellsLength Faulty SaysChunked LastValue)
open Window (crlf HoldsLine)

/-! ## What lines tell -/

/-- How the lines frame the body: a body that is once said to come in chunks comes in chunks, and
else its last length counts. -/
inductive Framing.Told (ls : List Bytes) : Framing → Prop
  | chunked (told : ∃ line ∈ ls, SaysChunked line) : Told ls .chunked
  | length {value : String} {n : Nat} (plain : ∀ line ∈ ls, ¬ SaysChunked line)
    (last : LastValue "Content-Length" ls (some value)) (spells : SpellsLength value n) :
    Told ls (.length n)
  | empty (plain : ∀ line ∈ ls, ¬ SaysChunked line)
    (last : LastValue "Content-Length" ls none) : Told ls (.length 0)

/-- The call that tells a sink how a body is framed. -/
def Framing.call : Framing → Delivery
  | .chunked => .setChunked true
  | .length n => .setLength n

/-- The call that tells a sink the type of a body; there is none for a type that is too long. -/
def typeCalls : Option String → List Delivery
  | some type => if (Utf8.ofString type).length ≤ 64 then [.setContentType type] else []
  | none => []

namespace HeaderBlock.Gathers

variable {ls : List Bytes} {block : HeaderBlock}

theorem told (h : Gathers ls block) : Framing.Told ls block.framing := by
  unfold framing
  split
  · next hchunked => exact .chunked (h.chunked.1 hchunked)
  · next hplain =>
    have hplain : ∀ line ∈ ls, ¬ SaysChunked line := fun line hline hsaid =>
      hplain (h.chunked.2 ⟨line, hline, hsaid⟩)
    rcases h.length with ⟨hlast, hnone⟩ | ⟨value, n, hlast, hspells, hn⟩
    · rw [hnone]
      exact .empty hplain hlast
    · rw [hn]
      exact .length hplain hlast hspells

theorem announcement_eq (h : Gathers ls block) :
    ∃ type, LastValue "Content-Type" ls type ∧
      block.announcement = block.framing.call :: typeCalls type := by
  obtain ⟨type, hlast, htype⟩ := h.type
  refine ⟨type, hlast, ?_⟩
  have hcalls : (block.contentType.map Delivery.setContentType).toList = typeCalls type := by
    rw [htype]
    cases type with
    | none => rfl
    | some type =>
      rw [Option.bind_some, ContentType.kept?, typeCalls]
      have hkept : Utf8.fits ContentType.capacity type = true
          ↔ (Utf8.ofString type).length ≤ 64 := Utf8.fits_iff
      by_cases hfits : (Utf8.ofString type).length ≤ 64
      · rw [if_pos hfits, if_pos (hkept.2 hfits)]
        rfl
      · rw [if_neg hfits, if_neg (mt hkept.1 hfits)]
        rfl
  rw [announcement, hcalls]
  cases block.framing <;> rfl

end HeaderBlock.Gathers

/-! ## Blocks that are there whole -/

/-- Lines that name no location leave the one that is known. -/
theorem HeaderBlock.location_eq_of_addLine {block next : HeaderBlock} {line : Bytes}
    (h : block.addLine line = .ok next) (hline : ∀ location, ¬ NamesLocation line location) :
    next.location = block.location := by
  rcases (adds_of_addLine h).location_cases with hkept | ⟨value, hsaid, hfits, -⟩
  · exact hkept
  · exact absurd (namesLocation_iff.2 ⟨hsaid, hfits⟩) (hline value)

theorem HeaderBlock.location_eq_of_foldlM {block later : HeaderBlock} {ls : List Bytes}
    (h : ls.foldlM addLine block = .ok later)
    (hls : ∀ line ∈ ls, ∀ location, ¬ NamesLocation line location) :
    later.location = block.location := by
  induction ls generalizing block with
  | nil => rw [Except.ok.inj h]
  | cons line ls ih =>
    obtain ⟨hline, hrest⟩ := List.forall_mem_cons.1 hls
    obtain ⟨next, hnext, hlater⟩ := foldlM_addLine_cons h
    rw [ih hlater hrest, location_eq_of_addLine hnext hline]

/-- A block with a faulty line fails before anything is announced. The lines in front of the faulty
one are read, and none of them ends the block. -/
theorem Feed.readHeaders_of_faulty {f : Feed} {follow : Bool} {block : HeaderBlock}
    {ls : List Bytes} {rest : Bytes}
    (hls : ∀ line ∈ ls, HoldsLine f.capacity line ∧ line ≠ [])
    (hstay : follow = true →
      block.location = none ∧ ∀ line ∈ ls, ∀ location, ¬ HeaderBlock.NamesLocation line location)
    (hfold : ls.foldlM HeaderBlock.addLine block = .error .protocol)
    (hbytes : f.bytes = Reply.lines ls ++ rest) :
    ∃ g, f.readHeaders follow block = .error .protocol g ∧ g.outline = f.outline := by
  induction ls generalizing f block with
  | nil => cases hfold
  | cons line ls ih =>
    obtain ⟨⟨hline, hne⟩, hrest⟩ := List.forall_mem_cons.1 hls
    rw [Reply.lines_cons, List.append_assoc] at hbytes
    rw [List.foldlM_cons] at hfold
    cases hnext : block.addLine line with
    | error e =>
      rw [hnext] at hfold
      obtain rfl := Except.error.inj hfold
      have hlength : line.length ≠ 0 := fun h => hne (List.length_eq_zero_iff.1 h)
      rw [← front_of_line hbytes] at hnext
      exact ⟨f, readHeaders_malformed (readLine_of_line hline hbytes) hlength hnext, rfl⟩
    | ok next =>
      rw [hnext] at hfold
      have hgo : follow = true → next.location = none ∧
          ∀ line ∈ ls, ∀ location, ¬ HeaderBlock.NamesLocation line location := by
        intro hfollow
        obtain ⟨hnone, hlines⟩ := hstay hfollow
        obtain ⟨hfirst, hlater⟩ := List.forall_mem_cons.1 hlines
        exact ⟨(HeaderBlock.location_eq_of_addLine hnext hfirst).trans hnone, hlater⟩
      rw [readHeaders_cons hline hne hnext (fun hfollow => (hgo hfollow).1) hbytes]
      exact ih (f := { f with
        bytes := Reply.lines ls ++ rest, location := next.location.or f.location })
        hrest hgo hfold rfl

namespace Exchange

variable {x : Exchange} {ls : List Bytes} {rest : Bytes} {follow : Bool}

/-- The calls of an exchange that announced something, and did nothing else that is seen. -/
theorem deliveries_of_announced {kind : Event → Prop} {y : Exchange} {calls : List Delivery}
    (hadds : Adds kind x y) (hcalls : ∀ c ∈ calls, c.IsAnnouncement)
    (houtline : outline y.trace = outline x.trace ++ outline (calls.map .deliver)) :
    deliveries y.trace = deliveries x.trace ++ calls := by
  obtain ⟨new, htrace, -⟩ := hadds
  rw [htrace, outline_append, outline_announcements hcalls] at houtline
  have hnew : outline new = calls.map Event.deliver ++ (bytewise [] ++ List.map .deliver []) := by
    rw [List.append_cancel_left houtline]
    simp
  obtain ⟨slices, hne, hempty, hdeliveries⟩ := handed_of_outline hcalls (.inl rfl) hnew
  have hslices : slices = [] := List.eq_nil_iff_forall_not_mem.2 fun s hs =>
    hne s hs (List.flatten_eq_nil_iff.1 hempty s hs)
  rw [htrace, deliveries_append, hdeliveries, hslices]
  simp

theorem readHeaders_of_faulty (hx : x.peer.Steady)
    (hls : ∀ line ∈ ls, HoldsLine x.window.capacity line ∧ line ≠ [])
    (hstay : follow = true → ∀ line ∈ ls, ∀ location, ¬ HeaderBlock.NamesLocation line location)
    (hstream : x.window.pending ++ x.peer.stream = Reply.lines ls ++ rest)
    (hfold : ls.foldlM HeaderBlock.addLine {} = .error .protocol) :
    ∃ y, x.readHeaders follow {} = .error .protocol y ∧
      deliveries y.trace = deliveries x.trace := by
  have hshows := shows_readHeaders follow {} hx
  obtain ⟨g, hg, houtline⟩ := Feed.readHeaders_of_faulty (f := x.feed) hls
    (fun hfollow => ⟨rfl, hstay hfollow⟩) hfold hstream
  rw [hg] at hshows
  have hadds := adds_readHeaders follow {} x
  cases hy : x.readHeaders follow {} with
  | ok next y =>
    rw [hy] at hshows
    cases hshows.of_ok.1
  | error e y =>
    rw [hy] at hshows hadds
    obtain ⟨f, hf, hrecord⟩ := hshows.of_error
    obtain ⟨rfl, rfl⟩ := EStateM.Result.error.inj hf
    refine ⟨y, rfl, ?_⟩
    have hsame : outline y.trace = outline x.trace ++ outline (List.map .deliver []) := by
      rw [List.map_nil, outline_nil, List.append_nil]
      exact (congrArg Record.outline hrecord).trans houtline
    exact (deliveries_of_announced hadds (by simp) hsame).trans (List.append_nil _)

theorem readHeaders_of_lines {later : HeaderBlock} (hx : x.peer.Steady)
    (hls : ∀ line ∈ ls, HoldsLine x.window.capacity line ∧ line ≠ [])
    (hblank : HoldsLine x.window.capacity [])
    (hstay : follow = true → ∀ line ∈ ls, ∀ location, ¬ HeaderBlock.NamesLocation line location)
    (hstream : x.window.pending ++ x.peer.stream = Reply.lines ls ++ crlf ++ rest)
    (hfold : ls.foldlM HeaderBlock.addLine {} = .ok later) :
    ∃ y, x.readHeaders follow {} = .ok (.body later.framing) y ∧
      deliveries y.trace = deliveries x.trace ++ later.announcement ∧
      y.location = later.location.or x.location ∧ y.window.pending ++ y.peer.stream = rest := by
  have hshows := shows_readHeaders follow {} hx
  rw [Feed.readHeaders_of_lines (f := x.feed) hls hblank hfold
    (fun hfollow => HeaderBlock.location_eq_of_foldlM hfold (hstay hfollow)) rfl hstream] at hshows
  have hadds := adds_readHeaders follow {} x
  cases hy : x.readHeaders follow {} with
  | error e y =>
    rw [hy] at hshows
    obtain ⟨f, hf, -⟩ := hshows.of_error
    cases hf
  | ok next y =>
    rw [hy] at hshows hadds
    obtain ⟨rfl, hfeed⟩ := EStateM.Result.ok.inj hshows.of_ok.1
    refine ⟨y, rfl, ?_, (congrArg (·.location) hfeed).symm, (congrArg Feed.bytes hfeed).symm⟩
    exact deliveries_of_announced hadds (fun _ => HeaderBlock.isAnnouncement_of_mem)
      (congrArg (·.outline) hfeed).symm

/-- What lines come to is what a block of them comes to, whatever part of it is in the window already
and however the rest arrives. -/
theorem readHeaders_tells_lines
    (hx : x.peer.Steady) (hls : ∀ line ∈ ls, HoldsLine x.window.capacity line ∧ line ≠ [])
    (hblank : HoldsLine x.window.capacity [])
    (hstay : follow = true → ∀ line ∈ ls, ∀ location, ¬ HeaderBlock.NamesLocation line location)
    (hstream : x.window.pending ++ x.peer.stream = Reply.lines ls ++ crlf ++ rest) :
    ((∃ line ∈ ls, Faulty line) →
      ∃ y, x.readHeaders follow {} = .error .protocol y ∧
        deliveries y.trace = deliveries x.trace) ∧
    ((∀ line ∈ ls, ¬ Faulty line) →
      ∃ framing type location y, Framing.Told ls framing ∧ LastValue "Content-Type" ls type ∧
        LastValue "Location" ls location ∧ x.readHeaders follow {} = .ok (.body framing) y ∧
        deliveries y.trace = deliveries x.trace ++ framing.call :: typeCalls type ∧
        y.location = location.or x.location ∧ y.window.pending ++ y.peer.stream = rest) := by
  rcases HeaderBlock.foldlM_addLine_ends ls {} with ⟨later, hfold, hsound⟩ | ⟨hfold, hfaulty⟩
  · refine ⟨fun ⟨line, hline, hfaulty⟩ => absurd hfaulty (hsound line hline), fun _ => ?_⟩
    have hgathers := HeaderBlock.Gathers.nil.foldlM hfold
    obtain ⟨type, htype, hcalls⟩ := hgathers.announcement_eq
    obtain ⟨y, hy, hdeliveries, hlocation, hrest⟩ :=
      readHeaders_of_lines hx hls hblank hstay hstream hfold
    rw [hcalls] at hdeliveries
    exact ⟨later.framing, type, later.location, y, hgathers.told, htype, hgathers.location, hy,
      hdeliveries, hlocation, hrest⟩
  · obtain ⟨line, hline, hbad⟩ := hfaulty
    refine ⟨fun _ => ?_, fun hsound => absurd hbad (hsound line hline)⟩
    rw [List.append_assoc] at hstream
    exact readHeaders_of_faulty hx hls hstay hstream hfold

/-- A length behind the line that makes it void, and a location that is not followed. -/
theorem readHeaders_tells_lines_in_pieces :
    let ls := ["Transfer-Encoding: chunked", "Content-Length: 5", "Location:/"].map Utf8.ofString
    let x := (Client.new 32).startExchange (.sending [Utf8.ofString "Transfer-Encoding: chu",
      Utf8.ofString "nked\r\nContent-Length: 5\r", Utf8.ofString "\nLocation:/\r\n\r\nHTTP"]) none
      1000
    ∃ framing type location y, Framing.Told ls framing ∧ LastValue "Content-Type" ls type ∧
      LastValue "Location" ls location ∧ x.readHeaders false {} = .ok (.body framing) y ∧
      deliveries y.trace = deliveries x.trace ++ framing.call :: typeCalls type ∧
      y.location = location.or x.location ∧
      y.window.pending ++ y.peer.stream = Utf8.ofString "HTTP" := by
  intro ls x
  have hsound : ∀ line ∈ ls, ¬ Faulty line := by
    rcases HeaderBlock.foldlM_addLine_ends ls {} with ⟨-, -, hsound⟩ | ⟨herror, -⟩
    · exact hsound
    · cases herror
  have hls : ∀ line ∈ ls, HoldsLine 32 line ∧ line ≠ [] := by
    have hshort : ∀ line ∈ ls, 13 ∉ line ∧ line.length + 2 ≤ 32 ∧ line ≠ [] := by decide +kernel
    exact fun line hline => ⟨Window.holdsLine_of_not_mem (hshort line hline).1
      (hshort line hline).2.1, (hshort line hline).2.2⟩
  exact (readHeaders_tells_lines (Peer.steady_sending (by decide)) hls
    (Window.holdsLine_of_not_mem (by decide) (by decide)) (fun h => by cases h)
    (by decide +kernel)).2 hsound

end Exchange

end DeviceHttp
