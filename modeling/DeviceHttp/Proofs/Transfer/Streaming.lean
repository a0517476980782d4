import DeviceHttp.Proofs.Transfer.ChunkDecoding
import DeviceHttp.Proofs.Transfer.Pieces

/-!
# Bodies that are produced on the way

A stream is read in pieces as large as the working buffer until a read gives nothing
(`StreamBody.reads`). Sent in chunks it can be decoded again: every size is written with no more
digits than that of the buffer, so a window that holds such a line reads all of them
(`Chunk.accepts_reads`). Sent with a length it is cut there: a shorter read gives the front part of
what a longer one would have given (`StreamBody.read_of_le`).
-/

namespace DeviceHttp

open Window (crlf HoldsLine)

/-! ## Sizes in hexadecimal -/

namespace Hex

theorem render_of_lt {n : Nat} (h : n < 16) : render n = [digit n] := by
  rw [render, if_pos h]

theorem render_of_le {n : Nat} (h : 16 ≤ n) : render n = render (n / 16) ++ [digit (n % 16)] := by
  rw [render, if_neg (Nat.not_lt.2 h)]

/-- A larger number has no fewer digits. -/
theorem length_render_le_of_le {m n : Nat} (h : m ≤ n) :
    (render m).length ≤ (render n).length := by
  induction n using Nat.strongRecOn generalizing m with
  | ind n ih =>
    by_cases hm : m < 16
    · rw [render_of_lt hm]
      exact List.length_pos_iff.2 (render_ne_nil n)
    · have hn : 16 ≤ n := Nat.le_trans (Nat.not_lt.1 hm) h
      rw [render_of_le (Nat.not_lt.1 hm), render_of_le hn, List.length_append, List.length_append]
      exact Nat.add_le_add_right (ih (n / 16) (by omega) (Nat.div_le_div_right h)) 1

end Hex

namespace Chunk

/-- A chunk of this data as it is sent. -/
def ofData (data : Bytes) : Chunk :=
  ⟨Hex.render data.length, data⟩

theorem spells_render {size : Nat} (h : size < sizeLimit) : Spells (Hex.render size) size :=
  ⟨Hex.render size, [], (List.append_nil _).symm, Hex.render_ne_nil size,
    List.all_eq_true.1 (Hex.all_isDigit_render size), by simp, Hex.value_render size, h⟩

/-- A window that holds the line of a size holds those of all smaller ones. -/
theorem holdsLine_render {capacity size limit : Nat} (h : size ≤ limit)
    (hlimit : (Hex.render limit).length + 2 ≤ capacity) :
    HoldsLine capacity (Hex.render size) := by
  have hdigit : ¬ Hex.isDigit 13 = true := by decide
  refine Window.holdsLine_of_not_mem ?_ ?_
  · intro hmem
    exact hdigit (List.all_eq_true.1 (Hex.all_isDigit_render size) 13 hmem)
  · have := Hex.length_render_le_of_le h
    omega

/-- What is written of a size fits in twenty bytes, with the end of the line. -/
theorem length_sizeLine_le {size : Nat} (h : size < sizeLimit) : (sizeLine size).length ≤ 18 := by
  have hlargest : (Hex.render (sizeLimit - 1)).length = 16 := by cbv
  have hdigits : (Hex.render size).length ≤ 16 :=
    hlargest ▸ Hex.length_render_le_of_le (Nat.le_sub_one_of_lt h)
  simpa [sizeLine, crlf] using hdigits

end Chunk

/-! ## What a stream gives -/

namespace Producer

variable {room : Nat} {p : Producer}

/-- A producer whose next piece fits goes on to the piece behind it. -/
theorem advance_of_length_le (h : (p.pieces.headD []).length ≤ room) :
    p.advance room = { p with pieces := p.pieces.tail } := by
  rcases p with ⟨_ | ⟨piece, later⟩, boast⟩
  · rfl
  · exact congrArg (Producer.mk · boast) (if_pos (List.drop_of_length_le h))

theorem boast_advance (room : Nat) (p : Producer) : (p.advance room).boast = p.boast := by
  rcases p with ⟨_ | ⟨piece, later⟩, boast⟩ <;> rfl

/-- A call gives the front part of the next piece, and leaves the rest of it. -/
theorem given_append_advance (room : Nat) (p : Producer) :
    p.given room ++ (p.advance room).pieces.flatten = p.pieces.flatten := by
  rcases p with ⟨_ | ⟨piece, later⟩, boast⟩
  · exact List.append_nil _ |>.trans List.take_nil
  · show piece.take room
      ++ (if piece.drop room = [] then later else piece.drop room :: later).flatten = _
    split
    · next hdrop =>
      rw [List.take_of_length_le (List.drop_eq_nil_iff.1 hdrop)]
      rfl
    · rw [List.flatten_cons, ← List.append_assoc, List.take_append_drop]
      rfl

/-- A producer without empty pieces has none later on: a piece that is given in full is gone, and of
another one something is left. -/
theorem nonEmpty_advance (room : Nat) (h : ∀ piece ∈ p.pieces, piece ≠ []) :
    ∀ piece ∈ (p.advance room).pieces, piece ≠ [] := by
  rcases p with ⟨_ | ⟨piece, later⟩, boast⟩
  · exact h
  · obtain ⟨-, hlater⟩ := List.forall_mem_cons.1 h
    show ∀ part ∈ (if piece.drop room = [] then later else piece.drop room :: later), part ≠ []
    split
    · exact hlater
    · next hdrop => exact List.forall_mem_cons.2 ⟨hdrop, hlater⟩

/-- A producer without empty pieces gives nothing only at its end. -/
theorem pieces_eq_nil_of_given (hroom : 0 < room) (h : ∀ piece ∈ p.pieces, piece ≠ [])
    (hgiven : p.given room = []) : p.pieces = [] := by
  rcases p with ⟨_ | ⟨piece, later⟩, boast⟩
  · rfl
  · have hpiece : piece ≠ [] := h piece List.mem_cons_self
    rcases List.take_eq_nil_iff.1 hgiven with hzero | hnil
    · exact absurd hzero (Nat.ne_of_gt hroom)
    · exact absurd hnil hpiece

end Producer

namespace StreamBody

/-- What a body gives in reads of this size, up to the first one that gives nothing. -/
def reads (room : Nat) (b : StreamBody) : List Bytes :=
  if _h : (b.read room).1 = [] then [] else (b.read room).1 :: reads room (b.read room).2
termination_by b.producer.bytesLeft
decreasing_by exact b.bytesLeft_read_lt room _h

theorem reads_within (room : Nat) (b : StreamBody) :
    ∀ data ∈ b.reads room, data ≠ [] ∧ data.length ≤ room := by
  fun_induction reads room b with
  | case1 b h => simp
  | case2 b h ih => exact List.forall_mem_cons.2 ⟨⟨h, b.length_read_le room⟩, ih⟩

/-- The next piece of a body, and what a boastful producer puts behind it in a buffer of this
size. -/
def filled (room : Nat) (b : StreamBody) : Bytes :=
  let piece := b.producer.pieces.headD []
  if b.producer.boast = none ∨ piece = [] then piece else piece ++ List.replicate room 35

/-- A read gives the front part of what a buffer would be filled with, whether the producer is
honest or claims more than it gave. -/
theorem read_fst {room limit : Nat} (hroom : 0 < room) (hle : room ≤ limit) (b : StreamBody) :
    (b.read room).1 = (b.filled limit).take room := by
  rcases b with ⟨⟨pieces, boast⟩, length, contentType⟩
  unfold read filled Producer.call Producer.given
  dsimp only
  generalize pieces.headD [] = piece
  cases boast with
  | none =>
    rw [if_pos (.inl rfl)]
    dsimp only
    rw [List.length_take, List.take_take, List.take_eq_take_iff]
    omega
  | some extra =>
    by_cases hpiece : piece = []
    · subst hpiece
      simp
    · have hgiven : piece.take room ≠ [] := by simp [hpiece, Nat.ne_of_gt hroom]
      dsimp only
      rw [if_neg hgiven, if_neg (by simp [hpiece]), List.length_take]
      dsimp only
      rw [Nat.min_eq_right (Nat.le_add_right room extra), List.take_append, List.take_append,
        List.take_take, Nat.min_self, List.take_replicate, List.take_replicate, List.length_take]
      congr 2
      omega

/-- What is left in the buffer by a call has the next piece of the producer in it. -/
theorem length_piece_le_filled (room : Nat) (b : StreamBody) :
    (b.producer.pieces.headD []).length ≤ (b.filled room).length := by
  unfold filled
  dsimp only
  split
  · exact Nat.le_refl _
  · rw [List.length_append]
    exact Nat.le_add_right _ _

/-- A shorter read gives the front part of what a longer one gives, and one that is not filled is
the longer one. -/
theorem read_of_le {short long : Nat} (hshort : 0 < short) (hle : short ≤ long) (b : StreamBody) :
    (b.read short).1 = (b.read long).1.take short ∧
      ((b.read short).1.length < short → b.read short = b.read long) := by
  have hfirst := b.read_fst hshort hle
  have hsecond := b.read_fst (Nat.lt_of_lt_of_le hshort hle) (Nat.le_refl long)
  constructor
  · rw [hfirst, hsecond, List.take_take, Nat.min_eq_left hle]
  · intro hless
    rw [hfirst, List.length_take] at hless
    have hfilled : (b.filled long).length ≤ short := by omega
    have hpiece := Nat.le_trans (b.length_piece_le_filled long) hfilled
    refine Prod.ext ?_ ?_
    · rw [hfirst, hsecond, List.take_of_length_le hfilled,
        List.take_of_length_le (Nat.le_trans hfilled hle)]
    · show { b with producer := b.producer.advance short }
        = { b with producer := b.producer.advance long }
      rw [Producer.advance_of_length_le hpiece,
        Producer.advance_of_length_le (Nat.le_trans hpiece hle)]

theorem reads_of_nil {room : Nat} {b : StreamBody} (h : (b.read room).1 = []) :
    b.reads room = [] := by
  rw [reads, dif_pos h]

theorem reads_of_ne_nil {room : Nat} {b : StreamBody} (h : (b.read room).1 ≠ []) :
    b.reads room = (b.read room).1 :: (b.read room).2.reads room := by
  rw [reads, dif_neg h]

/-- An honest producer gives its pieces, as long as none of them is empty. An empty one would be
taken for the end of the body. -/
theorem flatten_reads_of_honest {room : Nat} (hroom : 0 < room) (b : StreamBody)
    (hhonest : b.producer.boast = none) (hpieces : ∀ piece ∈ b.producer.pieces, piece ≠ []) :
    (b.reads room).flatten = b.producer.pieces.flatten := by
  have hread (b : StreamBody) (h : b.producer.boast = none) :
      (b.read room).1 = b.producer.given room := by
    rw [b.read_fst hroom (Nat.le_refl room), filled, if_pos (.inl h)]
    rfl
  fun_induction reads room b with
  | case1 b h =>
    rw [hread b hhonest] at h
    rw [Producer.pieces_eq_nil_of_given hroom hpieces h, List.flatten_nil]
  | case2 b h ih =>
    have hrest : ((b.read room).2.reads room).flatten = (b.producer.advance room).pieces.flatten :=
      ih ((b.producer.boast_advance room).trans hhonest) (Producer.nonEmpty_advance room hpieces)
    rw [List.flatten_cons, hread b hhonest, hrest, Producer.given_append_advance]

end StreamBody

/-! ## What is sent of a stream -/

/-- What is sent of a stream in chunks is one chunk for each read, the empty one, and a last end of a
line. -/
theorem StreamBody.flatten_chunked (room : Nat) (b : StreamBody) :
    ((Source.stream b).chunked room).flatten
      = Chunk.stream ((b.reads room).map Chunk.ofData) ++ Hex.render 0 ++ crlf ++ crlf := by
  fun_induction reads room b with
  | case1 b h =>
    have hread : ((Source.stream b).read room).1 = [] := h
    rw [Source.chunked_round, if_pos hread, hread]
    rfl
  | case2 b h ih =>
    have hread : (Source.stream b).read room = ((b.read room).1, .stream (b.read room).2) := rfl
    rw [Source.chunked_round, hread]
    dsimp only
    rw [if_neg h, List.flatten_cons, List.flatten_append, ih]
    simp [Chunk.bytes, Chunk.ofData, Chunk.sizeLine]

namespace Chunk

theorem body_ofData (parts : List Bytes) : body (parts.map ofData) = parts.flatten := by
  induction parts with
  | nil => rfl
  | cons part parts ih => rw [List.map_cons, body_cons, ih, List.flatten_cons]; rfl

/-- The chunks of a stream are read by a window that holds the line of a chunk as large as the
buffer. -/
theorem accepts_reads {capacity room : Nat} (hroom : room < sizeLimit)
    (hcapacity : (Hex.render room).length + 2 ≤ capacity) (b : StreamBody) :
    Accepts capacity ((Source.stream b).chunked room).flatten ((b.reads room).map ofData) crlf := by
  refine ⟨?_, Hex.render 0, ?_, b.flatten_chunked room⟩
  · intro c hc
    obtain ⟨data, hdata, rfl⟩ := List.mem_map.1 hc
    obtain ⟨hne, hle⟩ := b.reads_within room data hdata
    exact ⟨holdsLine_render hle hcapacity, spells_render (Nat.lt_of_le_of_lt hle hroom), hne⟩
  · exact ⟨holdsLine_render (Nat.zero_le room) hcapacity, spells_render (by decide)⟩

end Chunk

/-- The first bytes that a stream gives in large reads are those of one read that asks for no more
than is missing, and the first ones behind it. -/
theorem StreamBody.take_flatten_reads {capacity n : Nat} (hcapacity : 0 < capacity) (hn : 0 < n)
    {b : StreamBody} (hne : (b.read (min n capacity)).1 ≠ []) :
    (b.reads capacity).flatten.take n
      = (b.read (min n capacity)).1 ++
        ((b.read (min n capacity)).2.reads capacity).flatten.take
          (n - (b.read (min n capacity)).1.length) := by
  have hroom : 0 < min n capacity := Nat.lt_min.2 ⟨hn, hcapacity⟩
  obtain ⟨hpart, hwhole⟩ := b.read_of_le hroom (Nat.min_le_right n capacity)
  have hlength := b.length_read_le (min n capacity)
  have hnonempty : (b.read capacity).1 ≠ [] := by
    intro hnil
    rw [hnil, List.take_nil] at hpart
    exact hne hpart
  rw [reads_of_ne_nil hnonempty, List.flatten_cons, List.take_append]
  by_cases hsame : b.read (min n capacity) = b.read capacity
  · rw [hsame] at hlength ⊢
    rw [List.take_of_length_le (Nat.le_trans hlength (Nat.min_le_left n capacity))]
  · -- the shorter read is filled, and takes all that is missing
    have hfilled := Nat.le_antisymm hlength (Nat.not_lt.1 (mt hwhole hsame))
    have hmin : min n capacity = n := by
      rcases Nat.le_total n capacity with hle | hle
      · exact Nat.min_eq_left hle
      · rw [Nat.min_eq_right hle] at hsame
        exact absurd rfl hsame
    rw [hmin] at hpart hfilled ⊢
    have hlong : n ≤ (b.read capacity).1.length := by
      rw [hpart, List.length_take] at hfilled
      omega
    rw [hfilled, Nat.sub_self, Nat.sub_eq_zero_of_le hlong, List.take_zero, List.take_zero, hpart]

/-- What is sent of a stream with a length is cut there. Each read asks for no more than is missing,
and that is the front of what a longer one would have given. -/
theorem Source.flatten_measured {capacity : Nat} (hcapacity : 0 < capacity) (n : Nat)
    (b : StreamBody) :
    ((Source.stream b).measured capacity n).flatten = (b.reads capacity).flatten.take n := by
  induction n using Nat.strongRecOn generalizing b with
  | ind n ih =>
    by_cases h0 : n = 0
    · rw [h0, measured, dif_pos rfl, List.take_zero, List.flatten_nil]
    have hn : 0 < n := Nat.pos_of_ne_zero h0
    have hread : (Source.stream b).read (min n capacity)
      = ((b.read (min n capacity)).1, .stream (b.read (min n capacity)).2) := rfl
    rw [measured_round h0, hread]
    dsimp only
    by_cases hnil : (b.read (min n capacity)).1 = []
    · have hroom : 0 < min n capacity := Nat.lt_min.2 ⟨hn, hcapacity⟩
      have hend : (b.read capacity).1 = [] := by
        rw [(b.read_of_le hroom (Nat.min_le_right n capacity)).1] at hnil
        exact (List.take_eq_nil_iff.1 hnil).resolve_left (Nat.ne_of_gt hroom)
      rw [if_pos hnil, StreamBody.reads_of_nil hend, List.flatten_nil, List.take_nil]
    · have hless : n - (b.read (min n capacity)).1.length < n :=
        Nat.sub_lt hn (List.length_pos_iff.2 hnil)
      rw [if_neg hnil, List.flatten_cons, ih _ hless,
        ← StreamBody.take_flatten_reads hcapacity hn hnil]

/-! ## Sending and decoding -/

namespace Exchange

/-- A stream is sent as what it gives in reads of the size of the working buffer. Without a length it
is sent in chunks whose first lines are short, and every window that holds the first line of a chunk
as large as the buffer decodes them, however they arrive, up to the last end of a line. With a length
no more than that is sent. -/
theorem sendBody_of_stream {x : Exchange} {body : StreamBody}
    (hsource : x.source = some (.stream body)) (hword : x.window.capacity < UInt64.size) :
    let parts := body.reads x.window.capacity
    (x.peer.Open → ∃ y, x.sendBody = .ok () y) ∧
    (body.producer.boast = none → (∀ piece ∈ body.producer.pieces, piece ≠ []) →
      parts.flatten = body.producer.pieces.flatten) ∧
    ∃ sends, x.sendBody.exchange.trace = x.trace ++ sends ∧
      (body.length = none →
        (∀ data ∈ parts, (Chunk.sizeLine data.length).length ≤ 20) ∧
        ∀ y, x.sendBody = .ok () y → ∀ z : Exchange, z.peer.Steady →
          z.window.pending ++ z.peer.stream = takenBytes sends →
          (Hex.render x.window.capacity).length + 2 ≤ z.window.capacity →
          ∃ w calls, z.readBody .chunked = .ok () w ∧ Slices calls parts.flatten ∧
            deliveries w.trace = deliveries z.trace ++ calls ++ [.write []] ∧
            w.window.pending ++ w.peer.stream = crlf) ∧
      ∀ n, body.length = some n →
        takenBytes sends <+: parts.flatten.take n ∧
        ∀ y, x.sendBody = .ok () y → takenBytes sends = parts.flatten.take n := by
  intro parts
  have hcapacity := x.window.capacity_pos
  have hpieces := sendBody_eq_sendAll x
  rw [hsource, Option.map_some, Option.getD_some] at hpieces
  obtain ⟨sends, htrace, hposts⟩ := posts_of_sendAll hpieces
  have htaken {y : Exchange} (hy : x.sendBody = .ok () y) :
      takenBytes sends = ((Source.stream body).sent x.window.capacity).flatten := by
    rw [hy] at hposts
    exact hposts.takenBytes_eq
  refine ⟨?opened, body.flatten_reads_of_honest hcapacity, sends, htrace, ?chunked, ?measured⟩
  case opened =>
    intro hopen
    obtain ⟨y, hy, -⟩ := taken_sendBody hopen
    exact ⟨y, hy⟩
  case chunked =>
    intro hlength
    have hsent : (Source.stream body).sent x.window.capacity
        = (Source.stream body).chunked x.window.capacity := by
      rw [Source.sent, Source.framing, Source.isChunked, hlength]
      rfl
    constructor
    · intro data hdata
      have hsize := (body.reads_within _ data hdata).2
      exact Nat.le_trans (Chunk.length_sizeLine_le (Nat.lt_of_le_of_lt hsize hword)) (by decide)
    · intro y hy z hz hstream hline
      have haccepts := Chunk.accepts_reads hword hline body
      rw [← hsent, ← htaken hy, ← hstream] at haccepts
      obtain ⟨w, hw, hrest, calls, hcalls, hdeliveries⟩ := readBody_of_accepts hz haccepts
      rw [Chunk.body_ofData] at hcalls
      exact ⟨w, calls, hw, hcalls, hdeliveries, hrest⟩
  case measured =>
    intro n hlength
    have hsent : ((Source.stream body).sent x.window.capacity).flatten = parts.flatten.take n := by
      rw [Source.sent, Source.framing, Source.isChunked, Source.length, hlength]
      exact Source.flatten_measured hcapacity n body
    exact ⟨hsent ▸ hposts.prefixes.2, fun y hy => (htaken hy).trans hsent⟩

/-- Nine bytes from a producer, in chunks of four at most. They are read back with a window of three
bytes, over pieces that are cut elsewhere. -/
theorem sendBody_of_stream_in_two_pieces :
    let body : StreamBody :=
      { producer := { pieces := [Utf8.ofString "Wikipe", Utf8.ofString "dia"] } }
    let x := (Client.new 4).startExchange { arrivals := [] } (some (.stream body)) 1000
    let z := (Client.new 3).startExchange (.sending [Utf8.ofString "4\r",
      Utf8.ofString "\nWiki\r\n2\r\npe\r\n3\r\ndi", Utf8.ofString "a\r\n0\r\n\r\n"]) none 1000
    takenBytes x.sendBody.exchange.trace = z.peer.stream ∧
      ∃ w calls, z.readBody .chunked = .ok () w ∧ Slices calls (Utf8.ofString "Wikipedia") ∧
        deliveries w.trace = [] ++ calls ++ [.write []] ∧
        w.window.pending ++ w.peer.stream = crlf := by
  intro body x z
  obtain ⟨hopen, hparts, sends, htrace, hchunked, -⟩ :=
    @sendBody_of_stream x body rfl (by decide)
  obtain ⟨y, hy⟩ := hopen ⟨rfl, rfl, rfl⟩
  have htaken : takenBytes x.sendBody.exchange.trace = z.peer.stream := by decide +kernel
  have hsends : z.window.pending ++ z.peer.stream = takenBytes sends := by
    rw [← htaken, htrace]
    rfl
  obtain ⟨w, calls, hw, hcalls, hdeliveries, hrest⟩ := (hchunked rfl).2 y hy z
    (Peer.steady_sending (by decide)) hsends (by decide +kernel)
  rw [hparts rfl (by decide)] at hcalls
  exact ⟨htaken, w, calls, hw, hcalls, hdeliveries, hrest⟩

end Exchange

end DeviceHttp
