import DeviceHttp.Proofs.Transfer.Lines

/-!
# The grammar of a chunked body

A chunked body is a list of chunks and the line of an empty one. `Chunk.Accepts` is a stream that
starts with such a body; `Chunk.Rejects` is one in which the chunks are followed by a fault instead,
and `Chunk.Fault` lists the faults, each with the bytes of the chunk in progress that are still there
and with the error that it is. Every stream is of one of the two forms
(`Chunk.accepts_or_rejects`), and the reader does with each what the form says
(`Feed.readChunks_of_accepts`, `Feed.readChunks_of_rejects`). So the two forms exclude each other.
-/

namespace DeviceHttp

/-- A chunk as it stands in a stream: the line that spells its size, and its data. -/
structure Chunk where
  line : Bytes
  data : Bytes
  deriving DecidableEq, Repr

namespace Chunk

open Window (crlf HoldsLine)

/-! ## Sizes -/

/-- The line spells a size: digits of either case, and behind them nothing or something that starts
with a semicolon or a blank. -/
def Spells (line : Bytes) (size : Nat) : Prop :=
  ∃ digits extension, line = digits ++ extension ∧ digits ≠ [] ∧
    (∀ b ∈ digits, Hex.isDigit b = true) ∧ (∀ b ∈ extension.head?, endsSize b = true) ∧
    Hex.value digits = size ∧ size < sizeLimit

theorem isDigit_eq_false_of_endsSize {b : UInt8} (h : endsSize b = true) :
    Hex.isDigit b = false := by
  simp only [endsSize, Bool.or_eq_true, decide_eq_true_eq] at h
  rcases h with (rfl | rfl) | rfl <;> decide

/-- A line is read as a size exactly if it spells one. The digits are as many as there are, so the
size does not depend on where the extension is taken to start. -/
theorem parseSize_eq_ok_iff {line : Bytes} {size : Nat} :
    parseSize line = .ok size ↔ Spells line size := by
  unfold parseSize
  dsimp only
  constructor
  · intro h
    split at h
    · next hline =>
      rcases hline with ⟨hne, hafter, hlt⟩
      obtain rfl := Except.ok.inj h
      refine ⟨_, _, List.takeWhile_append_dropWhile.symm, hne, ?_, ?_, rfl, hlt⟩
      · exact List.all_eq_true.1 List.all_takeWhile
      · exact (Option.all_eq_true _ _).1 hafter
    · cases h
  · rintro ⟨digits, extension, rfl, hne, hdigits, hextension, rfl, hlt⟩
    obtain ⟨htake, hdrop⟩ := Cut.while_append hdigits fun b hb =>
      isDigit_eq_false_of_endsSize (hextension b hb)
    rw [htake, hdrop, if_pos ⟨hne, (Option.all_eq_true _ _).2 hextension, hlt⟩]

/-- A line that spells no size is a protocol error; there is no other failure. -/
theorem parseSize_of_not_spells {line : Bytes} (h : ∀ size, ¬ Spells line size) :
    parseSize line = .error .protocol := by
  cases hsize : parseSize line with
  | ok size => exact absurd (parseSize_eq_ok_iff.1 hsize) (h size)
  | error e =>
    unfold parseSize at hsize
    dsimp only at hsize
    split at hsize
    · cases hsize
    · exact congrArg Except.error (Except.error.inj hsize).symm

/-! ## Streams -/

/-- A chunk as it is sent. -/
def bytes (c : Chunk) : Bytes :=
  c.line ++ crlf ++ c.data ++ crlf

/-- Chunks as they are sent. -/
def stream (chunks : List Chunk) : Bytes :=
  chunks.flatMap bytes

/-- The data of chunks. -/
def body (chunks : List Chunk) : Bytes :=
  chunks.flatMap data

/-- A chunk of at least one byte whose first line fits the window and spells its size. -/
structure Valid (capacity : Nat) (c : Chunk) : Prop where
  fits : HoldsLine capacity c.line
  size : Spells c.line c.data.length
  nonEmpty : c.data ≠ []

/-- The line behind the last chunk. -/
structure EndLine (capacity : Nat) (line : Bytes) : Prop where
  fits : HoldsLine capacity line
  size : Spells line 0

/-- What a stream holds where a chunk was to follow; `part` are the bytes of that chunk's data. -/
inductive Fault (capacity : Nat) (ending : StreamEnd) : Bytes → Bytes → TransferError → Prop
  /-- A line that spells no size. -/
  | size {line rest : Bytes} (fits : HoldsLine capacity line) (none : ∀ n, ¬ Spells line n) :
    Fault capacity ending (line ++ crlf ++ rest) [] .protocol
  /-- As many bytes as the window holds, and no end of a line among them. -/
  | line {bytes : Bytes} (long : capacity ≤ bytes.length)
    (none : ¬ crlf <:+: bytes.take capacity) : Fault capacity ending bytes [] .protocol
  /-- The end of the stream in the line of a chunk. -/
  | lineEnds {bytes : Bytes} (short : bytes.length < capacity) (none : ¬ crlf <:+: bytes) :
    Fault capacity ending bytes [] ending.error
  /-- The end of the stream in the data of a chunk. -/
  | dataEnds {line part : Bytes} {n : Nat} (fits : HoldsLine capacity line)
    (size : Spells line n) (short : part.length < n) :
    Fault capacity ending (line ++ crlf ++ part) part ending.error
  /-- The end of the stream behind the data of a chunk. -/
  | chunkEnds {c : Chunk} {tail : Bytes} (valid : c.Valid capacity) (short : tail.length < 2) :
    Fault capacity ending (c.line ++ crlf ++ c.data ++ tail) c.data ending.error
  /-- Something else than the end of a line behind the data of a chunk. -/
  | chunk {c : Chunk} {tail : Bytes} (valid : c.Valid capacity) (two : 2 ≤ tail.length)
    (none : tail.take 2 ≠ crlf) :
    Fault capacity ending (c.line ++ crlf ++ c.data ++ tail) c.data .protocol

/-- The stream starts with these chunks and the line that ends them, and goes on with `rest`. -/
structure Accepts (capacity : Nat) (stream : Bytes) (chunks : List Chunk) (rest : Bytes) :
    Prop where
  valid : ∀ c ∈ chunks, c.Valid capacity
  spelled : ∃ line, EndLine capacity line ∧
    stream = Chunk.stream chunks ++ line ++ crlf ++ rest

/-- The stream starts with these chunks, and goes on with a fault. -/
structure Rejects (capacity : Nat) (ending : StreamEnd) (stream : Bytes) (chunks : List Chunk)
    (part : Bytes) (e : TransferError) : Prop where
  valid : ∀ c ∈ chunks, c.Valid capacity
  fault : ∃ rest, Fault capacity ending rest part e ∧ stream = Chunk.stream chunks ++ rest

@[simp] theorem stream_nil : stream [] = [] := rfl

@[simp] theorem stream_cons (c : Chunk) (chunks : List Chunk) :
    stream (c :: chunks) = c.bytes ++ stream chunks := rfl

@[simp] theorem body_nil : body [] = [] := rfl

@[simp] theorem body_cons (c : Chunk) (chunks : List Chunk) :
    body (c :: chunks) = c.data ++ body chunks := rfl

section Cons

variable {capacity : Nat} {ending : StreamEnd} {c : Chunk} {chunks : List Chunk}
  {later rest part : Bytes} {e : TransferError}

theorem Accepts.cons (hc : c.Valid capacity) (h : Accepts capacity later chunks rest) :
    Accepts capacity (c.bytes ++ later) (c :: chunks) rest := by
  rcases h with ⟨hvalid, line, hline, rfl⟩
  exact ⟨List.forall_mem_cons.2 ⟨hc, hvalid⟩, line, hline, by simp⟩

theorem Rejects.cons (hc : c.Valid capacity) (h : Rejects capacity ending later chunks part e) :
    Rejects capacity ending (c.bytes ++ later) (c :: chunks) part e := by
  rcases h with ⟨hvalid, rest, hfault, rfl⟩
  exact ⟨List.forall_mem_cons.2 ⟨hc, hvalid⟩, rest, hfault, by simp⟩

theorem Fault.rejects {stream : Bytes} (h : Fault capacity ending stream part e) :
    Rejects capacity ending stream [] part e :=
  ⟨by simp, stream, h, rfl⟩

end Cons

/-- Behind the first line of a chunk there is a whole chunk, or a fault: the data breaks off, or
what follows it is no line end. -/
theorem chunk_or_fault {capacity : Nat} (ending : StreamEnd) {line : Bytes} {size : Nat}
    (hline : HoldsLine capacity line) (hspells : Spells line size) (hsize : size ≠ 0)
    (rest : Bytes) :
    (∃ (c : Chunk) (later : Bytes), c.Valid capacity ∧ line ++ crlf ++ rest = c.bytes ++ later) ∨
      ∃ part e, Fault capacity ending (line ++ crlf ++ rest) part e := by
  by_cases hdata : rest.length < size
  · exact .inr ⟨rest, _, .dataEnds hline hspells hdata⟩
  · obtain ⟨data, tail, rfl, rfl⟩ : ∃ data tail, rest = data ++ tail ∧ data.length = size :=
      ⟨rest.take size, rest.drop size, (List.take_append_drop _ _).symm,
        List.length_take_of_le (by omega)⟩
    have hvalid : Valid capacity ⟨line, data⟩ :=
      ⟨hline, hspells, fun hnil => hsize (congrArg List.length hnil)⟩
    rw [← List.append_assoc]
    by_cases htwo : tail.length < 2
    · exact .inr ⟨data, _, .chunkEnds hvalid htwo⟩
    · by_cases hcrlf : tail.take 2 = crlf
      · refine .inl ⟨⟨line, data⟩, tail.drop 2, hvalid, ?_⟩
        rw [bytes, List.append_assoc _ crlf (tail.drop 2), ← hcrlf, List.take_append_drop, hcrlf]
      · exact .inr ⟨data, _, .chunk hvalid (by omega) hcrlf⟩

/-- The grammar has a word on every stream. The induction is over its length: what stands at the
front is the end of the body, a fault, or a chunk with a shorter stream behind it. -/
theorem accepts_or_rejects (capacity : Nat) (ending : StreamEnd) (stream : Bytes) :
    (∃ chunks rest, Accepts capacity stream chunks rest) ∨
      ∃ chunks part e, Rejects capacity ending stream chunks part e := by
  induction hn : stream.length using Nat.strongRecOn generalizing stream with
  | ind n ih =>
    subst hn
    rcases Window.line_cases capacity stream with
      ⟨line, rest, hline, rfl⟩ | ⟨hno, hlong⟩ | ⟨hno, hshort⟩
    · by_cases hspells : ∃ size, Spells line size
      · obtain ⟨size, hspells⟩ := hspells
        by_cases hsize : size = 0
        · subst hsize
          exact .inl ⟨[], rest, by simp, line, ⟨hline, hspells⟩, rfl⟩
        · rcases chunk_or_fault ending hline hspells hsize rest with
            ⟨c, later, hc, heq⟩ | ⟨part, e, hfault⟩
          · rw [heq]
            have hlt : later.length < (line ++ crlf ++ rest).length := by
              rw [heq]
              simp only [bytes, crlf, List.length_append, List.length_cons]
              omega
            rcases ih later.length hlt later rfl with
              ⟨chunks, rest', haccepts⟩ | ⟨chunks, part, e, hrejects⟩
            · exact .inl ⟨c :: chunks, rest', haccepts.cons hc⟩
            · exact .inr ⟨c :: chunks, part, e, hrejects.cons hc⟩
          · exact .inr ⟨[], part, e, hfault.rejects⟩
      · exact .inr ⟨[], [], _, (Fault.size hline (not_exists.1 hspells)).rejects⟩
    · exact .inr ⟨[], [], _, (Fault.line hlong hno).rejects⟩
    · exact .inr ⟨[], [], _, (Fault.lineEnds hshort hno).rejects⟩

/-! ## Cut streams -/

/-- The data of chunks that lies in the first `k` bytes of their stream. -/
def contained : List Chunk → Nat → Bytes
  | [], _ => []
  | c :: chunks, k =>
    c.data.take (k - (c.line.length + 2)) ++ contained chunks (k - c.bytes.length)

theorem contained_zero (chunks : List Chunk) : contained chunks 0 = [] := by
  induction chunks with
  | nil => rfl
  | cons c chunks ih => simp [contained, ih]

theorem length_bytes (c : Chunk) : c.bytes.length = c.line.length + 2 + c.data.length + 2 := by
  simp [bytes, crlf]
  omega

/-- A stream that ends in a chunk has a fault there, wherever it ends: in the size line, in the
data, or in the line end behind it. -/
theorem fault_of_cut {capacity : Nat} (ending : StreamEnd) {c : Chunk} {k : Nat}
    (hc : c.Valid capacity) (hk : k < c.bytes.length) :
    Fault capacity ending (c.bytes.take k) (c.data.take (k - (c.line.length + 2)))
      ending.error := by
  rw [length_bytes] at hk
  have hbytes : c.bytes = c.line ++ crlf ++ (c.data ++ crlf) := List.append_assoc _ _ _
  rw [hbytes]
  by_cases hline : k < c.line.length + 2
  · have hnil : c.data.take (k - (c.line.length + 2)) = [] := by
      rw [Nat.sub_eq_zero_of_le (Nat.le_of_lt hline), List.take_zero]
    have hlength := hc.fits.length
    rw [hnil]
    apply Fault.lineEnds _ (Window.not_crlf_of_cut hc.fits.noEnd _ hline)
    rw [List.length_take]
    omega
  · rw [Window.take_of_line _ (Nat.le_of_not_lt hline), List.take_append]
    by_cases hdata : k - (c.line.length + 2) < c.data.length
    · rw [Nat.sub_eq_zero_of_le (Nat.le_of_lt hdata), List.take_zero, List.append_nil]
      apply Fault.dataEnds hc.fits hc.size
      rw [List.length_take]
      omega
    · rw [List.take_of_length_le (Nat.le_of_not_lt hdata), ← List.append_assoc]
      apply Fault.chunkEnds hc
      rw [List.length_take]
      omega

/-- A body that is cut anywhere is rejected as one that ends too early, behind the data that it
still holds. -/
theorem rejects_of_cut {capacity : Nat} (ending : StreamEnd) {chunks : List Chunk} {last : Bytes}
    {k : Nat} (hchunks : ∀ c ∈ chunks, c.Valid capacity) (hlast : EndLine capacity last)
    (hk : k < (stream chunks ++ last ++ crlf).length) :
    ∃ whole part, Rejects capacity ending ((stream chunks ++ last ++ crlf).take k) whole part
      ending.error ∧ body whole ++ part = contained chunks k := by
  induction chunks generalizing k with
  | nil =>
    have hshort : k < last.length + 2 := by simpa [crlf] using hk
    have hlength := hlast.fits.length
    have hnone : ¬ crlf <:+: (last ++ crlf).take k := by
      have hcut := Window.not_crlf_of_cut hlast.fits.noEnd [] hshort
      rwa [List.append_nil] at hcut
    refine ⟨[], [], (Fault.lineEnds ?_ hnone).rejects, rfl⟩
    rw [List.length_take]
    omega
  | cons c chunks ih =>
    rcases List.forall_mem_cons.1 hchunks with ⟨hc, hrest⟩
    have hstream : stream (c :: chunks) ++ last ++ crlf
        = c.bytes ++ (stream chunks ++ last ++ crlf) := by
      simp
    rw [hstream] at hk ⊢
    rw [List.take_append, contained]
    by_cases hcut : k < c.bytes.length
    · rw [Nat.sub_eq_zero_of_le (Nat.le_of_lt hcut), List.take_zero, List.append_nil,
        contained_zero, List.append_nil]
      exact ⟨[], _, (fault_of_cut ending hc hcut).rejects, rfl⟩
    · have hlater : k - c.bytes.length < (stream chunks ++ last ++ crlf).length := by
        rw [List.length_append] at hk
        omega
      obtain ⟨whole, part, hrejects, hcontained⟩ := ih hrest hlater
      have hdata : c.data.take (k - (c.line.length + 2)) = c.data := by
        rw [length_bytes] at hcut
        exact List.take_of_length_le (by omega)
      rw [List.take_of_length_le (Nat.le_of_not_lt hcut), hdata, ← hcontained]
      exact ⟨c :: whole, part, hrejects.cons hc, by simp⟩

end Chunk

/-! ## Reading what the grammar describes -/

namespace Feed

open Chunk
open Window (crlf HoldsLine)

variable {f : Feed} {line rest data tail : Bytes}

theorem readChunkSize_of_line {size : Nat} (hline : HoldsLine f.capacity line)
    (hspells : Spells line size) (hbytes : f.bytes = line ++ crlf ++ rest) :
    f.readChunkSize = .ok size { f with bytes := rest } := by
  rw [readChunkSize, readLine_of_line hline hbytes]
  show takeChunkSize line.length f = _
  rw [takeChunkSize, front_of_line hbytes, parseSize_eq_ok_iff.2 hspells, consume_of_line hbytes]

theorem readChunkSize_of_not_spells (hline : HoldsLine f.capacity line)
    (hnone : ∀ size, ¬ Spells line size) (hbytes : f.bytes = line ++ crlf ++ rest) :
    f.readChunkSize = .error .protocol f := by
  rw [readChunkSize, readLine_of_line hline hbytes]
  show takeChunkSize line.length f = _
  rw [takeChunkSize, front_of_line hbytes, parseSize_of_not_spells hnone]

theorem readChunkSize_of_error {e : TransferError} {g : Feed} (h : f.readLine = .error e g) :
    f.readChunkSize = .error e g := by
  rw [readChunkSize, h]
  rfl

theorem copy_of_append (hbytes : f.bytes = data ++ tail) :
    f.copy data.length = .ok () ({ f with bytes := tail }.tell data) := by
  have hle : data.length ≤ f.bytes.length := by
    rw [hbytes, List.length_append]
    exact Nat.le_add_right _ _
  rw [copy, if_pos hle, pass, front, consume, hbytes, List.take_left, List.drop_left]

theorem copy_of_short {n : Nat} (h : f.bytes.length < n) :
    f.copy n = .error f.ending.error ({ f with bytes := [] }.tell f.bytes) := by
  have hle : f.bytes.length ≤ n := Nat.le_of_lt h
  rw [copy, if_neg (Nat.not_le_of_lt h), pass, front, consume, List.take_of_length_le hle,
    List.drop_of_length_le hle]

/-- A chunk up to its data. What is left of the round is the line end that has to follow. -/
theorem readChunks_of_data {c : Chunk} (hc : c.Valid f.capacity)
    (hbytes : f.bytes = c.line ++ crlf ++ c.data ++ tail) :
    f.readChunks =
      match ({ f with bytes := tail }.tell c.data).fillTo 2 with
      | .error e g => .error e g
      | .ok _ g =>
        if g.front 2 = crlf then readChunks (g.consume 2) else .error .protocol g := by
  have hsize : c.data.length ≠ 0 := by
    intro h
    exact hc.nonEmpty (List.length_eq_zero_iff.1 h)
  rw [List.append_assoc (c.line ++ crlf)] at hbytes
  have hround := readChunks_of_ok (readChunkSize_of_line hc.fits hc.size hbytes)
  rw [if_neg hsize, copy_of_append rfl] at hround
  exact hround

theorem fillTo_two (h : 2 ≤ f.bytes.length) : f.fillTo 2 = .ok () f := by
  rw [fillTo, if_pos (by omega)]

/-- A whole chunk at the front is one round of the loop. The reader goes on behind it as if the rest
were the stream, with the data told. -/
theorem readChunks_chunk {c : Chunk} (hc : c.Valid f.capacity)
    (hbytes : f.bytes = c.bytes ++ rest) :
    f.readChunks = ({ f with bytes := rest }.tell c.data).readChunks := by
  have htail : f.bytes = c.line ++ crlf ++ c.data ++ (crlf ++ rest) := by
    rw [hbytes, Chunk.bytes, List.append_assoc]
  rw [readChunks_of_data hc htail, fillTo_two (by simp [tell, crlf])]
  exact if_pos rfl

/-- A body in chunks is read to its end and not further. The sink is told the data, and then that
there is no more of it. -/
theorem readChunks_of_accepts {chunks : List Chunk}
    (h : Accepts f.capacity f.bytes chunks rest) :
    f.readChunks
      = .ok () (({ f with bytes := rest }.tell (body chunks)).deliverAll [.write []]) := by
  rcases h with ⟨hvalid, line, hline, hbytes⟩
  induction chunks generalizing f with
  | nil =>
    rw [stream_nil, List.nil_append] at hbytes
    rw [readChunks_of_ok (readChunkSize_of_line hline.fits hline.size hbytes), if_pos rfl]
    simp [tell]
  | cons c chunks ih =>
    rcases List.forall_mem_cons.1 hvalid with ⟨hc, hchunks⟩
    rw [stream_cons, List.append_assoc, List.append_assoc, List.append_assoc,
      ← List.append_assoc line, ← List.append_assoc (stream chunks),
      ← List.append_assoc (stream chunks)] at hbytes
    have hrest := ih (f := tell c.data { f with bytes := stream chunks ++ line ++ crlf ++ rest })
      hchunks hline rfl
    rw [readChunks_chunk hc hbytes, hrest]
    simp [tell]

/-- A fault is reported as what it is, and the bytes of the chunk in progress were handed over by
then. -/
theorem readChunks_of_fault {part : Bytes} {e : TransferError}
    (h : Fault f.capacity f.ending f.bytes part e) :
    ∃ g, f.readChunks = .error e g ∧ g.toRecord = (f.tell part).toRecord := by
  have htell : f.toRecord = (f.tell []).toRecord := by simp [tell]
  generalize hbytes : f.bytes = stream at h
  cases h with
  | size hline hnone =>
    exact ⟨f, readChunks_of_error (readChunkSize_of_not_spells hline hnone hbytes), htell⟩
  | line hlong hnone =>
    subst hbytes
    exact ⟨f, readChunks_of_error (readChunkSize_of_error (readLine_of_long hnone hlong)), htell⟩
  | lineEnds hshort hnone =>
    subst hbytes
    exact ⟨f, readChunks_of_error (readChunkSize_of_error (readLine_of_end hnone hshort)), htell⟩
  | dataEnds hline hspells hshort =>
    refine ⟨{ f with bytes := [] }.tell part, ?_, rfl⟩
    rw [readChunks_of_ok (readChunkSize_of_line hline hspells hbytes), if_neg (by omega),
      copy_of_short hshort]
  | @chunkEnds c tail hc hshort =>
    have hcapacity := hc.fits.length
    refine ⟨{ f with bytes := tail }.tell c.data, ?_, rfl⟩
    rw [readChunks_of_data hc hbytes, fillTo, if_neg]
    · rfl
    · show ¬ min 2 f.capacity ≤ tail.length
      omega
  | @chunk c tail hc htwo hnone =>
    refine ⟨{ f with bytes := tail }.tell c.data, ?_, rfl⟩
    rw [readChunks_of_data hc hbytes, fillTo_two htwo]
    exact if_neg hnone

/-- A stream with a fault is rejected with the error of that fault. What the sink has been told by
then is the data of the chunks in front of the fault, and the part of the one in progress. -/
theorem readChunks_of_rejects {chunks : List Chunk} {part : Bytes} {e : TransferError}
    (h : Rejects f.capacity f.ending f.bytes chunks part e) :
    ∃ g, f.readChunks = .error e g ∧ g.toRecord = (f.tell (body chunks ++ part)).toRecord := by
  rcases h with ⟨hvalid, rest, hfault, hbytes⟩
  induction chunks generalizing f with
  | nil =>
    rw [stream_nil, List.nil_append] at hbytes
    subst hbytes
    exact readChunks_of_fault hfault
  | cons c chunks ih =>
    rcases List.forall_mem_cons.1 hvalid with ⟨hc, hchunks⟩
    rw [stream_cons, List.append_assoc] at hbytes
    obtain ⟨g, hg, hrecord⟩ := ih (f := { f with bytes := stream chunks ++ rest }.tell c.data)
      hchunks hfault rfl
    refine ⟨g, by rw [readChunks_chunk hc hbytes, hg], hrecord.trans ?_⟩
    simp [tell]

end Feed

end DeviceHttp
