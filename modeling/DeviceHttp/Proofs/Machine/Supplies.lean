import DeviceHttp.Proofs.Machine.Spooling
import DeviceHttp.Proofs.Transfer.Streaming

/-!
# Sending a body on a device

A `Supply` is whatever the body of a request can be read from: it fills a buffer as it likes and
claims what it likes, and nothing has to be known of its reads but that they end (`Supply.Ends`); if
it declares its length, not even that. What is sent of it is a list of pieces (`Supply.Sends`), and
the loops that send it come to sending those (`follows_sendBody`). The sources of a client are
supplies (`Supply.ofSource`), and their pieces are those that the client sends.
-/

namespace DeviceHttp.Machine

open Window (crlf)

/-! ## The line of a chunk -/

/-- A line with parts behind it in a buffer of this size. A part that does not fit is left out, and
so are those behind it. -/
def appendWithin (limit : Nat) (line : Bytes) : List Bytes → Bytes
  | [] => line
  | part :: parts =>
    if line.length + part.length ≤ limit then appendWithin limit (line ++ part) parts else line

/-- The first line of a chunk of a size, as a buffer of twenty bytes holds it. -/
def sizeLine (size : Nat) : Bytes :=
  appendWithin 20 [] [Hex.render size, crlf]

/-- Nothing of the line is left out, whatever the size. -/
theorem sizeLine_eq {size : Nat} (h : size < UInt64.size) : sizeLine size = Chunk.sizeLine size := by
  have hline : (Chunk.sizeLine size).length ≤ 18 := Chunk.length_sizeLine_le h
  rw [Chunk.sizeLine, List.length_append] at hline
  rw [sizeLine, appendWithin, if_pos, appendWithin, if_pos, appendWithin, List.nil_append,
    Chunk.sizeLine]
  · rw [List.nil_append]
    omega
  · rw [List.length_nil]
    omega

/-! ## The body of a request -/

/-- Whatever the body of a request can be read from. -/
structure Supply (σ : Type) where
  /-- Go back to the start of the body. -/
  reset : σ → σ
  isChunked : σ → Bool
  length : σ → Nat
  contentType : σ → Option String
  /-- Fill a buffer: the buffer, how many of its bytes are claimed to be of the body, and what is
  left of the body. -/
  read : Bytes → σ → Bytes × Nat × σ
  length_read (buffer : Bytes) (s : σ) : (read buffer s).1.length = buffer.length

section Body

variable {σ : Type} (supply : Supply σ)

/-- Send a chunk of a body, read in one piece. -/
def sendChunksRound : Round σ σ := fun s => do
  let r ← get
  let read := supply.read r.cells.bytes s
  set { r with cells := { r.cells with bytes := read.1 } }
  let n := min read.2.1 r.cells.bytes.length
  send (sizeLine n)
  if n = 0 then do
    send crlf
    pure (.done read.2.2)
  else do
    let data ← slice read.1 0 n
    send data
    send crlf
    pure (.again read.2.2)

/-- Send a body in chunks. -/
def sendChunks (s : σ) : Act σ :=
  (sendChunksRound supply).loop s

/-- Send a piece of a body, of which so many bytes are to be sent at most. -/
def sendMeasuredRound : Round (Nat × σ) σ := fun (remaining, s) =>
  if 0 < remaining then do
    let r ← get
    let want := min remaining r.cells.bytes.length
    let front ← slice r.cells.bytes 0 want
    let read := supply.read front s
    store 0 read.1
    let n := min read.2.1 want
    if n = 0 then pure (.done read.2.2)
    else do
      let data ← slice read.1 0 n
      send data
      let rest ← sub remaining n
      pure (.again (rest, read.2.2))
  else pure (.done s)

/-- Send at most so many bytes of a body. -/
def sendMeasured (remaining : Nat) (s : σ) : Act σ :=
  (sendMeasuredRound supply).loop (remaining, s)

/-- Send a body, if there is one. -/
def sendBody : Option σ → Act (Option σ)
  | none => pure none
  | some s => do
    let s ← if supply.isChunked s then sendChunks supply s
      else sendMeasured supply (supply.length s) s
    pure (some s)

end Body

namespace Supply

variable {σ : Type}

/-- How many bytes a read gives: no more than there is room for, whatever is claimed. -/
def taken (supply : Supply σ) (buffer : Bytes) (s : σ) : Nat :=
  min (supply.read buffer s).2.1 buffer.length

/-- The bytes that a read gives. -/
def data (supply : Supply σ) (buffer : Bytes) (s : σ) : Bytes :=
  (supply.read buffer s).1.take (supply.taken buffer s)

/-- Reads into buffers of this size give nothing at some time, whatever is in the buffers. -/
inductive Ends (supply : Supply σ) (size : Nat) : σ → Prop
  | intro {s : σ}
    (reads : ∀ buffer : Bytes, buffer.length = size → supply.taken buffer s ≠ 0 →
      Ends supply size (supply.read buffer s).2.2) :
    Ends supply size s

/-- A source comes to be in a state through reads and resets. -/
inductive Reaches (supply : Supply σ) (s : σ) : σ → Prop
  | refl : Reaches supply s s
  | reset {t : σ} (before : Reaches supply s t) : Reaches supply s (supply.reset t)
  | read {t : σ} (before : Reaches supply s t) (buffer : Bytes) :
    Reaches supply s (supply.read buffer t).2.2

/-- Whenever a source is to be sent in chunks, its reads end. A source that declares its length is
exhaustible in any case. -/
def Exhaustible (supply : Supply σ) (size : Nat) (s : σ) : Prop :=
  ∀ t, supply.Reaches s t → supply.isChunked t = true → supply.Ends size t

/-- The pieces in which a body is sent in chunks, and what is left of it. -/
inductive Chunks (supply : Supply σ) : Bytes → σ → List Bytes → σ → Prop
  | last {buffer : Bytes} {s : σ} (nothing : supply.taken buffer s = 0) :
    Chunks supply buffer s [Chunk.sizeLine 0, crlf] (supply.read buffer s).2.2
  | more {buffer : Bytes} {s t : σ} {later : List Bytes} (something : supply.taken buffer s ≠ 0)
    (rest : Chunks supply (supply.read buffer s).1 (supply.read buffer s).2.2 later t) :
    Chunks supply buffer s
      (Chunk.sizeLine (supply.taken buffer s) :: supply.data buffer s :: crlf :: later) t

/-- The pieces in which at most so many bytes of a body are sent, and what is left of it. -/
inductive Measured (supply : Supply σ) : Nat → Bytes → σ → List Bytes → σ → Prop
  | full {buffer : Bytes} {s : σ} : Measured supply 0 buffer s [] s
  | short {remaining : Nat} {buffer front : Bytes} {s : σ} (unsent : remaining ≠ 0)
    (cut : buffer.take (min remaining buffer.length) = front)
    (nothing : supply.taken front s = 0) :
    Measured supply remaining buffer s [] (supply.read front s).2.2
  | more {remaining : Nat} {buffer front : Bytes} {s t : σ} {later : List Bytes}
    (unsent : remaining ≠ 0) (cut : buffer.take (min remaining buffer.length) = front)
    (something : supply.taken front s ≠ 0)
    (rest : Measured supply (remaining - supply.taken front s)
      ((supply.read front s).1 ++ buffer.drop front.length) (supply.read front s).2.2 later t) :
    Measured supply remaining buffer s (supply.data front s :: later) t

/-- The pieces in which a body is sent, and what is left of it. -/
inductive Sends (supply : Supply σ) (buffer : Bytes) :
    Option σ → List Bytes → Option σ → Prop
  | none : Sends supply buffer none [] none
  | chunked {s t : σ} {pieces : List Bytes} (framing : supply.isChunked s = true)
    (chunks : supply.Chunks buffer s pieces t) : Sends supply buffer (some s) pieces (some t)
  | measured {s t : σ} {pieces : List Bytes} (framing : supply.isChunked s = false)
    (measured : supply.Measured (supply.length s) buffer s pieces t) :
    Sends supply buffer (some s) pieces (some t)

section Existence

variable {supply : Supply σ}

theorem Reaches.trans {s t u : σ} (h : supply.Reaches s t) (k : supply.Reaches t u) :
    supply.Reaches s u := by
  induction k with
  | refl => exact h
  | reset _ ih => exact ih.reset
  | read _ buffer ih => exact ih.read buffer

theorem Chunks.reaches {buffer : Bytes} {s t : σ} {pieces : List Bytes}
    (h : supply.Chunks buffer s pieces t) : supply.Reaches s t := by
  induction h with
  | last nothing => exact .read .refl _
  | more something rest ih => exact (Reaches.read .refl _).trans ih

theorem Measured.reaches {remaining : Nat} {buffer : Bytes} {s t : σ} {pieces : List Bytes}
    (h : supply.Measured remaining buffer s pieces t) : supply.Reaches s t := by
  induction h with
  | full => exact .refl
  | short unsent cut nothing => exact .read .refl _
  | more unsent cut something rest ih => exact (Reaches.read .refl _).trans ih

/-- The supply that is left behind a body is one that reads of the first have led to. -/
theorem Sends.reaches {buffer : Bytes} {source rest : Option σ} {pieces : List Bytes}
    (h : supply.Sends buffer source pieces rest) :
    ∀ t ∈ rest, ∃ s ∈ source, supply.Reaches s t := by
  cases h with
  | none => simp
  | chunked framing chunks =>
    rintro _ ⟨⟩
    exact ⟨_, rfl, chunks.reaches⟩
  | measured framing measured =>
    rintro _ ⟨⟩
    exact ⟨_, rfl, measured.reaches⟩

/-- If the reads end, then so do the chunks. -/
theorem Ends.exists_chunks {size : Nat} {s : σ} (h : supply.Ends size s) {buffer : Bytes}
    (hsize : buffer.length = size) : ∃ pieces t, supply.Chunks buffer s pieces t := by
  induction h generalizing buffer with
  | @intro s reads ih =>
    by_cases hnothing : supply.taken buffer s = 0
    · exact ⟨_, _, .last hnothing⟩
    · obtain ⟨later, t, hlater⟩ :=
        ih buffer hsize hnothing ((supply.length_read buffer s).trans hsize)
      exact ⟨_, t, .more hnothing hlater⟩

/-- A body of declared length comes to an end even if the reads do not. -/
theorem exists_measured (remaining : Nat) (buffer : Bytes) (s : σ) :
    ∃ pieces t, supply.Measured remaining buffer s pieces t := by
  induction remaining using Nat.strongRecOn generalizing buffer s with
  | ind remaining ih =>
    by_cases h0 : remaining = 0
    · exact ⟨[], s, h0 ▸ .full⟩
    · let front := buffer.take (min remaining buffer.length)
      by_cases hnothing : supply.taken front s = 0
      · exact ⟨[], _, .short h0 rfl hnothing⟩
      · obtain ⟨later, t, hlater⟩ := ih (remaining - supply.taken front s) (by omega)
          ((supply.read front s).1 ++ buffer.drop front.length) (supply.read front s).2.2
        exact ⟨_, t, .more h0 rfl hnothing hlater⟩

/-- Every body is sent in pieces if it declares its length, or else if its reads end. -/
theorem exists_sends {size : Nat} {source : Option σ}
    (hends : ∀ s ∈ source, supply.Exhaustible size s) {buffer : Bytes}
    (hsize : buffer.length = size) :
    ∃ pieces rest, supply.Sends buffer source pieces rest := by
  cases source with
  | none => exact ⟨_, _, .none⟩
  | some s =>
    cases hframing : supply.isChunked s with
    | true =>
      obtain ⟨pieces, t, h⟩ := (hends s rfl s .refl hframing).exists_chunks hsize
      exact ⟨_, _, .chunked hframing h⟩
    | false =>
      obtain ⟨pieces, t, h⟩ := exists_measured (supply.length s) buffer s
      exact ⟨_, _, .measured hframing h⟩

end Existence

end Supply

section Following

variable {σ : Type} {supply : Supply σ} {r : Rig} {x : Exchange} {buffer : Bytes} {s t : σ}
  {pieces : List Bytes}

/-- A piece is sent in front of those behind it. -/
theorem follows_send_cons {α : Type} {piece : Bytes} {next : Unit → Act α}
    {later : Unit → Exchange → Exchange.Outcome α} (h : r.Mirrors x)
    (hnext : ∀ s y, s.Mirrors y → s.cells = r.cells → y.window = x.window →
      Follows (next ()) s (andThen (y.sendAll pieces) later)) :
    Follows (send piece >>= next) r (andThen (x.sendAll (piece :: pieces)) later) := by
  rw [Exchange.sendAll]
  rcases does_send piece h with ⟨s, y, hdoes, hy, hs, hcells⟩ | ⟨e, s, y, hdoes, hy, hs⟩
  · have hwindow : y.window = x.window :=
      (Exchange.Outcome.exchange_of_ok hy ▸ Exchange.sent_send piece x).window
    rw [hy]
    exact .step hdoes (hnext s y hs hcells hwindow)
  · rw [hy]
    exact .stop (.error hdoes hs)

theorem taken_lt (h : r.Mirrors x) (s : σ) : supply.taken r.cells.bytes s < UInt64.size :=
  Nat.lt_of_le_of_lt (Nat.min_le_right _ _) (h.cells.size ▸ h.cells.word)

/-- The loop that sends chunks comes to sending their pieces: the size line, the data and a line end
for each read that gives something, and the empty chunk in the end. -/
theorem follows_sendChunks (hchunks : supply.Chunks buffer s pieces t) (h : r.Mirrors x)
    (hidle : x.window.clear = x.window) (hbuffer : r.cells.bytes = buffer) :
    Follows (sendChunks supply s) r (andThen (x.sendAll pieces) fun _ y => .ok t y) := by
  induction hchunks generalizing r x with
  | @last buffer s nothing =>
    subst hbuffer
    have hover := h.over hidle (supply.length_read r.cells.bytes s)
    refine .loop ?_
    simp only [sendChunksRound, bind_assoc]
    refine .get (.set ?_)
    change Follows (send (sizeLine (supply.taken r.cells.bytes s)) >>= fun _ =>
      (if supply.taken r.cells.bytes s = 0 then _ else _) >>= _) _ _
    rw [sizeLine_eq (taken_lt h s), if_pos nothing, nothing, bind_assoc]
    refine follows_send_cons hover fun s₁ y₁ h₁ _ _ => ?_
    refine follows_send_cons h₁ fun s₂ y₂ h₂ _ _ => ?_
    exact .done h₂ _
  | @more buffer s t later something rest ih =>
    subst hbuffer
    have hover := h.over hidle (supply.length_read r.cells.bytes s)
    have hslice : supply.taken r.cells.bytes s ≤ (supply.read r.cells.bytes s).1.length :=
      supply.length_read r.cells.bytes s ▸ Nat.min_le_right _ _
    refine .loop ?_
    simp only [sendChunksRound, bind_assoc]
    refine .get (.set ?_)
    change Follows (send (sizeLine (supply.taken r.cells.bytes s)) >>= fun _ =>
      (if supply.taken r.cells.bytes s = 0 then _ else
        liftM (slice (supply.read r.cells.bytes s).1 0 (supply.taken r.cells.bytes s)) >>= _) >>= _)
      _ _
    rw [sizeLine_eq (taken_lt h s), if_neg something]
    simp only [bind_assoc]
    refine follows_send_cons hover fun s₁ y₁ h₁ hcells₁ hwindow₁ => ?_
    refine .lift (slice_zero hslice) ?_
    refine follows_send_cons h₁ fun s₂ y₂ h₂ hcells₂ hwindow₂ => ?_
    refine follows_send_cons h₂ fun s₃ y₃ h₃ hcells₃ hwindow₃ => ?_
    have hwindow : y₃.window = x.window := hwindow₃.trans (hwindow₂.trans hwindow₁)
    refine .again (ih h₃ (hwindow ▸ hidle) ?_)
    rw [hcells₃, hcells₂, hcells₁]

/-- The rig with these bytes in the front of its buffer. -/
def Rig.fronted (data : Bytes) (r : Rig) : Rig :=
  { r with cells := { r.cells with bytes := data ++ r.cells.bytes.drop data.length } }

theorem does_store_front {data : Bytes} (h : data.length ≤ r.cells.bytes.length) :
    Does (store 0 data) r (.ok ()) (r.fronted data) := by
  have hput : put r.cells.bytes 0 data = pure (r.fronted data).cells.bytes := by
    rw [put_eq (by rwa [Nat.zero_add]), Nat.zero_add]
    rfl
  exact (does_get r).bind ((does_lift hput r).bind (does_set r _))

theorem Rig.Mirrors.fronted {data : Bytes} (h : r.Mirrors x) (hidle : x.window.clear = x.window)
    (hdata : data.length ≤ r.cells.bytes.length) : (r.fronted data).Mirrors x := by
  refine h.over hidle ?_
  rw [List.length_append, List.length_drop]
  omega

/-- The loop that sends a body of known length comes to sending the pieces that its reads give, and
counts what is missing without leaving its word. -/
theorem follows_sendMeasured {remaining : Nat}
    (hmeasured : supply.Measured remaining buffer s pieces t) (h : r.Mirrors x)
    (hidle : x.window.clear = x.window) (hbuffer : r.cells.bytes = buffer) :
    Follows (sendMeasured supply remaining s) r
      (andThen (x.sendAll pieces) fun _ y => .ok t y) := by
  have hread {front : Bytes} {n : Nat} {r : Rig} (s : σ)
      (hfront : r.cells.bytes.take (min n r.cells.bytes.length) = front) :
      front.length = min n r.cells.bytes.length ∧
        (supply.read front s).1.length ≤ r.cells.bytes.length := by
    have hlength : front.length = min n r.cells.bytes.length := by
      rw [← hfront, List.length_take_of_le (Nat.min_le_right _ _)]
    exact ⟨hlength, supply.length_read front s ▸ hlength ▸ Nat.min_le_right _ _⟩
  induction hmeasured generalizing r x with
  | full =>
    refine .loop ?_
    simp only [sendMeasuredRound, if_neg (Nat.lt_irrefl 0)]
    exact .done h _
  | @short remaining buffer front s unsent cut nothing =>
    subst hbuffer
    obtain ⟨hlength, hfits⟩ := hread s cut
    refine .loop ?_
    simp only [sendMeasuredRound, if_pos (Nat.pos_of_ne_zero unsent), bind_assoc]
    refine .get (.lift (slice_zero (Nat.min_le_right _ _)) ?_)
    rw [cut, ← hlength]
    refine .step (does_store_front hfits) ?_
    change Follows ((if supply.taken front s = 0 then _ else _) >>= _) _ _
    rw [if_pos nothing]
    exact .done (h.fronted hidle hfits) _
  | @more remaining buffer front s t later unsent cut something rest ih =>
    subst hbuffer
    obtain ⟨hlength, hfits⟩ := hread s cut
    have hslice : supply.taken front s ≤ (supply.read front s).1.length :=
      supply.length_read front s ▸ Nat.min_le_right _ _
    have hrest : supply.taken front s ≤ remaining :=
      Nat.le_trans (Nat.min_le_right _ _) (hlength ▸ Nat.min_le_left _ _)
    refine .loop ?_
    simp only [sendMeasuredRound, if_pos (Nat.pos_of_ne_zero unsent), bind_assoc]
    refine .get (.lift (slice_zero (Nat.min_le_right _ _)) ?_)
    rw [cut, ← hlength]
    refine .step (does_store_front hfits) ?_
    change Follows ((if supply.taken front s = 0 then _ else
      liftM (slice (supply.read front s).1 0 (supply.taken front s)) >>= _) >>= _) _ _
    rw [if_neg something]
    simp only [bind_assoc]
    refine .lift (slice_zero hslice) ?_
    refine follows_send_cons (h.fronted hidle hfits) fun s₁ y₁ h₁ hcells₁ hwindow₁ => ?_
    refine .lift (sub_eq hrest) ?_
    refine .again (ih h₁ (hwindow₁ ▸ hidle) ?_)
    rw [hcells₁, Rig.fronted, supply.length_read]

/-- A body is sent as its pieces are. -/
theorem follows_sendBody {source rest : Option σ}
    (hsends : supply.Sends r.cells.bytes source pieces rest) (h : r.Mirrors x)
    (hidle : x.window.clear = x.window) :
    Follows (sendBody supply source) r (andThen (x.sendAll pieces) fun _ y => .ok rest y) := by
  have hsome {act : Act σ} {t : σ} {first : Exchange.Outcome Unit}
      (h : Follows act r (andThen first fun _ y => .ok t y)) :
      Follows (act >>= fun t => pure (some t)) r (andThen first fun _ y => .ok (some t) y) := by
    cases first with
    | ok u y => exact h.goOn fun s hs => .pure hs _
    | error e y => exact h.stop
  cases hsends with
  | none => exact .pure h none
  | @chunked s t _ framing chunks =>
    rw [sendBody, if_pos framing]
    exact hsome (follows_sendChunks chunks h hidle rfl)
  | @measured s t _ framing measured =>
    rw [sendBody, if_neg (by rw [framing]; exact Bool.false_ne_true)]
    exact hsome (follows_sendMeasured measured h hidle rfl)

end Following

/-! ## The sources of a client -/

/-- A source fills the front of a buffer and claims what it filled. -/
def Supply.ofSource : Supply Source where
  reset := Source.reset
  isChunked := Source.isChunked
  length := Source.length
  contentType := Source.contentType
  read buffer s :=
    ((s.read buffer.length).1 ++ buffer.drop (s.read buffer.length).1.length,
      (s.read buffer.length).1.length, (s.read buffer.length).2)
  length_read buffer s := by
    have := s.length_read_le buffer.length
    rw [List.length_append, List.length_drop]
    omega

section Sources

variable {buffer : Bytes} {s t : Source} {x y : Exchange} {pieces : List Bytes}

theorem taken_ofSource (buffer : Bytes) (s : Source) :
    Supply.ofSource.taken buffer s = (s.read buffer.length).1.length :=
  Nat.min_eq_left (s.length_read_le buffer.length)

theorem data_ofSource (buffer : Bytes) (s : Source) :
    Supply.ofSource.data buffer s = (s.read buffer.length).1 := by
  rw [Supply.data, taken_ofSource]
  exact List.take_left

/-- A read gives nothing exactly if it claims nothing. -/
theorem taken_ofSource_eq_zero_iff :
    Supply.ofSource.taken buffer s = 0 ↔ (s.read buffer.length).1 = [] := by
  rw [taken_ofSource, List.length_eq_zero_iff]

/-- Every source of a client is exhaustible, because each read that gives something leaves less. -/
theorem exhaustible_ofSource {size : Nat} (s : Source) : Supply.ofSource.Exhaustible size s := by
  have hends (s : Source) : Supply.ofSource.Ends size s := by
    induction hn : s.bytesLeft using Nat.strongRecOn generalizing s with
    | ind n ih =>
      subst hn
      refine .intro fun buffer hsize hsome => ?_
      have hless := s.bytesLeft_read_lt buffer.length (mt taken_ofSource_eq_zero_iff.2 hsome)
      exact ih _ hless (s.read buffer.length).2 rfl
  exact fun t _ _ => hends t

/-- A source is sent in the chunks in which the client sends it: every read fills the buffer, as a
read of the client does. -/
theorem chunks_ofSource {capacity : Nat} (hbuffer : buffer.length = capacity) (s : Source) :
    ∃ t, Supply.ofSource.Chunks buffer s (s.chunked capacity) t := by
  subst hbuffer
  induction hn : s.bytesLeft using Nat.strongRecOn generalizing buffer s with
  | ind n ih =>
    subst hn
    rw [Source.chunked_round]
    by_cases hnil : (s.read buffer.length).1 = []
    · rw [if_pos hnil, hnil]
      exact ⟨_, .last (taken_ofSource_eq_zero_iff.2 hnil)⟩
    · have hlength := Supply.ofSource.length_read buffer s
      obtain ⟨t, ht⟩ := @ih _ (s.bytesLeft_read_lt buffer.length hnil)
        (Supply.ofSource.read buffer s).1 (s.read buffer.length).2 rfl
      have hmore := Supply.Chunks.more (mt taken_ofSource_eq_zero_iff.1 hnil) ht
      rw [taken_ofSource, data_ofSource, hlength] at hmore
      rw [if_neg hnil]
      exact ⟨t, hmore⟩

/-- The reads of a source are those of the supply that it is, so its pieces are those that a client
sends. -/
theorem measured_ofSource {capacity : Nat} (hbuffer : buffer.length = capacity) (remaining : Nat)
    (s : Source) :
    ∃ t, Supply.ofSource.Measured remaining buffer s (s.measured capacity remaining) t := by
  subst hbuffer
  induction remaining using Nat.strongRecOn generalizing buffer s with
  | ind remaining ih =>
    by_cases h0 : remaining = 0
    · subst h0
      rw [Source.measured, dif_pos rfl]
      exact ⟨s, .full⟩
    · obtain ⟨front, hcut⟩ : ∃ front, buffer.take (min remaining buffer.length) = front := ⟨_, rfl⟩
      have hfront : front.length = min remaining buffer.length := by
        rw [← hcut, List.length_take_of_le (Nat.min_le_right _ _)]
      rw [Source.measured_round h0, ← hfront]
      by_cases hnil : (s.read front.length).1 = []
      · rw [if_pos hnil]
        exact ⟨_, .short h0 hcut (taken_ofSource_eq_zero_iff.2 hnil)⟩
      · have hpos := List.length_pos_iff.2 hnil
        have hlength : ((Supply.ofSource.read front s).1 ++ buffer.drop front.length).length
            = buffer.length := by
          rw [List.length_append, Supply.ofSource.length_read, List.length_drop]
          omega
        have hless : remaining - (s.read front.length).1.length < remaining := by omega
        obtain ⟨t, ht⟩ := @ih _ hless ((Supply.ofSource.read front s).1 ++ buffer.drop front.length)
          (s.read front.length).2
        rw [hlength] at ht
        rw [if_neg hnil, ← taken_ofSource, ← data_ofSource front s]
        rw [← taken_ofSource] at ht
        exact ⟨t, .more h0 hcut (mt taken_ofSource_eq_zero_iff.1 hnil) ht⟩

theorem source_of_send {piece : Bytes} {u : Unit} (h : x.send piece = .ok u y) :
    y.source = x.source := by
  have hsource := Exchange.source_sendAll [piece] x
  rwa [Exchange.sendAll_singleton, h] at hsource

/-- A body that was sent in chunks ended with its first chunk, or else behind it. -/
theorem ok_of_sendChunks (h : x.sendChunks s = .ok () y) :
    ((s.read x.window.capacity).1 = [] ∧ y.source = some (s.read x.window.capacity).2) ∨
      (s.read x.window.capacity).1 ≠ [] ∧ ∃ w : Exchange, w.window = x.window ∧
        w.sendChunks (s.read x.window.capacity).2 = .ok () y := by
  obtain ⟨z, hz⟩ : ∃ z : Exchange, { x with source := some (s.read x.window.capacity).2 } = z :=
    ⟨_, rfl⟩
  have hsource : z.source = some (s.read x.window.capacity).2 := hz ▸ rfl
  have hwindow : z.window = x.window := hz ▸ rfl
  rw [Exchange.sendChunks_round x _ z rfl hz] at h
  cases hv : z.send (Chunk.sizeLine (s.read x.window.capacity).1.length) with
  | error e v => simp [hv] at h
  | ok u v =>
    have hline := Exchange.Outcome.exchange_of_ok hv ▸ Exchange.sent_send _ z
    simp only [hv] at h
    by_cases hnil : (s.read x.window.capacity).1 = []
    · rw [if_pos hnil] at h
      exact .inl ⟨hnil, by rw [source_of_send h, source_of_send hv, hsource]⟩
    · rw [if_neg hnil] at h
      cases hw : v.sendAll [(s.read x.window.capacity).1, crlf] with
      | error e w => simp [hw] at h
      | ok u w =>
        have hdata := Exchange.Outcome.exchange_of_ok hw ▸ Exchange.sent_sendAll _ v
        simp only [hw] at h
        exact .inr ⟨hnil, w, hdata.window.trans (hline.window.trans hwindow), h⟩

/-- A body of announced length that was sent ended with its first piece, or else behind it. -/
theorem ok_of_sendLength {remaining : Nat} (h0 : remaining ≠ 0)
    (h : x.sendLength remaining s = .ok () y) :
    let read := s.read (min remaining x.window.capacity)
    (read.1 = [] ∧ y.source = some read.2) ∨
      read.1 ≠ [] ∧ ∃ z : Exchange, z.window = x.window ∧ z.source = some read.2 ∧
        z.sendLength (remaining - read.1.length) read.2 = .ok () y := by
  intro read
  obtain ⟨z, hz⟩ : ∃ z : Exchange, { x with source := some read.2 } = z := ⟨_, rfl⟩
  have hsource : z.source = some read.2 := hz ▸ rfl
  have hwindow : z.window = x.window := hz ▸ rfl
  rw [Exchange.sendLength_round x read z h0 rfl hz] at h
  by_cases hnil : read.1 = []
  · rw [if_pos hnil] at h
    cases h
    exact .inl ⟨hnil, hsource⟩
  · rw [if_neg hnil] at h
    cases hw : z.send read.1 with
    | error e w => simp [hw] at h
    | ok u w =>
      have hsent := Exchange.Outcome.exchange_of_ok hw ▸ Exchange.sent_send _ z
      simp only [hw] at h
      exact .inr ⟨hnil, w, hsent.window.trans hwindow, (source_of_send hw).trans hsource, h⟩

/-- What is left of a source is what the client has left of it. -/
theorem source_of_sendChunks (h : Supply.ofSource.Chunks buffer s pieces t)
    (hbuffer : buffer.length = x.window.capacity) (hy : x.sendChunks s = .ok () y) :
    y.source = some t := by
  induction h generalizing x with
  | @last buffer s nothing =>
    rw [taken_ofSource_eq_zero_iff, hbuffer] at nothing
    rcases ok_of_sendChunks hy with ⟨-, hsource⟩ | ⟨hne, -⟩
    · rw [hsource, ← hbuffer]
      rfl
    · exact absurd nothing hne
  | @more buffer s t later something rest ih =>
    rw [ne_eq, taken_ofSource_eq_zero_iff, hbuffer] at something
    rcases ok_of_sendChunks hy with ⟨hnil, -⟩ | ⟨-, w, hwindow, hw⟩
    · exact absurd hnil something
    · rw [← hbuffer] at hw
      exact ih ((Supply.ofSource.length_read buffer s).trans (hwindow ▸ hbuffer)) hw

/-- A body that was sent leaves the source where the reads of the supply have led to. -/
theorem source_of_sendLength {remaining : Nat}
    (h : Supply.ofSource.Measured remaining buffer s pieces t)
    (hbuffer : buffer.length = x.window.capacity) (hx : x.source = some s)
    (hy : x.sendLength remaining s = .ok () y) :
    y.source = some t := by
  have hfront {x : Exchange} {n : Nat} {buffer front : Bytes}
      (hbuffer : buffer.length = x.window.capacity)
      (hcut : buffer.take (min n buffer.length) = front) :
      front.length = min n x.window.capacity := by
    rw [← hcut, List.length_take_of_le (Nat.min_le_right _ _), hbuffer]
  induction h generalizing x with
  | @full buffer s =>
    rw [Exchange.sendLength, dif_pos rfl] at hy
    cases hy
    exact hx
  | @short remaining buffer front s unsent cut nothing =>
    rw [taken_ofSource_eq_zero_iff, hfront hbuffer cut] at nothing
    rcases ok_of_sendLength unsent hy with ⟨-, hsource⟩ | ⟨hne, -⟩
    · rw [hsource, ← hfront hbuffer cut]
      rfl
    · exact absurd nothing hne
  | @more remaining buffer front s t later unsent cut something rest ih =>
    rw [ne_eq, taken_ofSource_eq_zero_iff, hfront hbuffer cut] at something
    rcases ok_of_sendLength unsent hy with ⟨hnil, -⟩ | ⟨-, z, hwindow, hsource, hz⟩
    · exact absurd hnil something
    · rw [taken_ofSource] at ih
      rw [← hfront hbuffer cut] at hz hsource
      refine ih ?_ hsource hz
      have hle : front.length ≤ buffer.length := hbuffer ▸ hfront hbuffer cut ▸ Nat.min_le_right _ _
      rw [List.length_append, Supply.ofSource.length_read, List.length_drop, hwindow]
      omega

/-- A source is sent in the pieces in which the client sends it, and the same is left of it, however
much of the body was taken. -/
theorem sends_ofSource {capacity : Nat} (hbuffer : buffer.length = capacity)
    (source : Option Source) :
    ∃ rest, Supply.ofSource.Sends buffer source
        ((source.map (Source.sent capacity)).getD []) rest ∧
      ∀ x y : Exchange, x.source = source → x.window.capacity = capacity →
        x.sendBody = .ok () y → y.source = rest := by
  subst hbuffer
  cases source with
  | none =>
    refine ⟨none, .none, fun x y hx _ hy => ?_⟩
    unfold Exchange.sendBody at hy
    rw [hx] at hy
    cases hy
    exact hx
  | some s =>
    dsimp only [Option.map_some, Option.getD_some]
    cases hframing : s.isChunked with
    | true =>
      obtain ⟨t, ht⟩ := chunks_ofSource rfl s
      rw [Source.sent, Source.framing, if_pos hframing]
      refine ⟨some t, .chunked hframing ht, fun x y hx hcapacity hy => ?_⟩
      unfold Exchange.sendBody at hy
      rw [hx] at hy
      dsimp only at hy
      rw [Source.framing, if_pos hframing] at hy
      exact source_of_sendChunks ht hcapacity.symm hy
    | false =>
      have hnot : ¬ s.isChunked = true := by rw [hframing]; exact Bool.false_ne_true
      obtain ⟨t, ht⟩ := measured_ofSource rfl s.length s
      rw [Source.sent, Source.framing, if_neg hnot]
      refine ⟨some t, .measured hframing ht, fun x y hx hcapacity hy => ?_⟩
      unfold Exchange.sendBody at hy
      rw [hx] at hy
      dsimp only at hy
      rw [Source.framing, if_neg hnot] at hy
      exact source_of_sendLength ht hcapacity.symm hx hy

end Sources

end DeviceHttp.Machine
