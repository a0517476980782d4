import DeviceHttp.Proofs.Machine.Buffering
import DeviceHttp.Proofs.Transfer.Replay

/-!
# Reading a response on a device

The readers of a response as loops over the buffer, with every index, every difference and every sum
checked. Each of them comes to what the reader of an exchange comes to (`mimics_readResponse`): a
line lies in the buffer with its end, a slice is never longer than what waits or what remains, and
the size of a chunk is given up before it is too large for a word.
-/

namespace DeviceHttp.Machine

open Window (crlf)

/-! ## Sizes of chunks -/

/-- A product, if a word holds it. -/
def checkedMul (m n : Nat) : Option Nat :=
  if m * n < UInt64.size then some (m * n) else none

/-- A sum, if a word holds it. -/
def checkedAdd (m n : Nat) : Option Nat :=
  if m + n < UInt64.size then some (m + n) else none

/-- The number that is spelled by digits behind those of another one, if it and all numbers on the
way are words. -/
def spell (size : Nat) : Bytes → Option Nat
  | [] => some size
  | b :: digits =>
    (Hex.digit? b).bind fun digit =>
      (checkedMul size 16).bind fun size =>
        (checkedAdd size digit).bind fun size => spell size digits

/-- The size on the first line of a chunk. -/
def parseSize (text : Bytes) : Checked (Except TransferError Nat) := do
  let stop := text.findIdx fun b => !Hex.isDigit b
  if stop = 0 ∨ text[stop]?.all Chunk.endsSize = false then pure (.error .protocol)
  else do
    let digits ← slice text 0 stop
    pure ((spell 0 digits).elim (.error .protocol) .ok)

/-- The number that digits spell behind those of another one. -/
def valueFrom (size : Nat) (digits : Bytes) : Nat :=
  digits.foldl (fun n b => 16 * n + (Hex.digit? b).getD 0) size

theorem le_valueFrom (size : Nat) (digits : Bytes) : size ≤ valueFrom size digits := by
  induction digits generalizing size with
  | nil => exact Nat.le_refl size
  | cons b digits ih => exact Nat.le_trans (by omega) (ih (16 * size + (Hex.digit? b).getD 0))

/-- A number is given up at the first step that leaves the words, and no earlier; from there on it
could only grow. -/
theorem spell_eq {size : Nat} {digits : Bytes} (hsize : size < UInt64.size)
    (hdigits : ∀ b ∈ digits, Hex.isDigit b = true) :
    spell size digits
      = if valueFrom size digits < UInt64.size then some (valueFrom size digits) else none := by
  induction digits generalizing size with
  | nil => exact (if_pos hsize).symm
  | cons b digits ih =>
    obtain ⟨hb, hrest⟩ := List.forall_mem_cons.1 hdigits
    obtain ⟨digit, hdigit⟩ := Option.isSome_iff_exists.1 hb
    have hvalue : valueFrom size (b :: digits) = valueFrom (16 * size + digit) digits := by
      rw [valueFrom, List.foldl_cons, hdigit]
      rfl
    have hle := le_valueFrom (16 * size + digit) digits
    rw [spell, hdigit, hvalue, Option.bind_some]
    by_cases hnext : 16 * size + digit < UInt64.size
    · rw [checkedMul, if_pos (by omega), Option.bind_some, checkedAdd, if_pos (by omega),
        Option.bind_some, Nat.mul_comm size 16]
      exact ih hnext hrest
    · rw [if_neg (by omega), checkedMul]
      split
      · rw [Option.bind_some, checkedAdd, if_neg (by omega)]
        rfl
      · rfl

/-- Digits are added up with checked words as they are without: a size that would leave its word is
refused before it does. -/
theorem parseSize_eq (text : Bytes) : parseSize text = pure (Chunk.parseSize text) := by
  obtain ⟨stop, hstop⟩ : ∃ stop, text.findIdx (fun b => !Hex.isDigit b) = stop := ⟨_, rfl⟩
  have hle : stop ≤ text.length := hstop ▸ List.findIdx_le_length
  have hdigits : text.takeWhile Hex.isDigit = text.take stop :=
    hstop ▸ List.takeWhile_eq_take_findIdx_not
  have hafter : (text.dropWhile Hex.isDigit).head? = text[stop]? := by
    rw [List.dropWhile_eq_drop_findIdx_not, hstop, List.head?_drop]
  have hall : ∀ b ∈ text.take stop, Hex.isDigit b = true := by
    rw [← hdigits]
    exact List.all_eq_true.1 List.all_takeWhile
  have hnil : text.take stop = [] ↔ stop = 0 := by
    rw [List.take_eq_nil_iff]
    constructor
    · rintro (h | rfl)
      · exact h
      · exact Nat.le_zero.1 hle
    · exact .inl
  unfold parseSize Chunk.parseSize
  dsimp only
  rw [hstop, hdigits, hafter]
  by_cases hline : stop = 0 ∨ text[stop]?.all Chunk.endsSize = false
  · have hnot : ¬ (text.take stop ≠ [] ∧ text[stop]?.all Chunk.endsSize = true ∧
        Hex.value (text.take stop) < Chunk.sizeLimit) := by
      rintro ⟨hne, hends, -⟩
      rcases hline with h | h
      · exact hne (hnil.2 h)
      · rw [h] at hends
        cases hends
    rw [if_pos hline, if_neg hnot]
  · obtain ⟨h0, hends⟩ := not_or.1 hline
    rw [if_neg hline, slice_zero hle, pure_bind, spell_eq (by decide) hall]
    show pure ((if Hex.value (text.take stop) < Chunk.sizeLimit then _ else none).elim _ _) = _
    by_cases hword : Hex.value (text.take stop) < Chunk.sizeLimit
    · rw [if_pos hword, if_pos ⟨mt hnil.1 h0, Bool.of_not_eq_false hends, hword⟩]
      rfl
    · rw [if_neg hword, if_neg (fun h => hword h.2.2)]
      rfl

/-! ## Single steps -/

/-- Note what is done. -/
def note (event : Event) : Act Unit := do
  let r ← get
  set { r with trace := r.trace ++ [event] }

/-- Call the sink several times. -/
def deliverAll : List Delivery → Act Unit
  | [] => pure ()
  | call :: calls => do
    note (.deliver call)
    deliverAll calls

/-- Consume bytes at the front. -/
def consume (n : Nat) : Act Unit := do
  let r ← get
  let cells ← r.cells.consume n
  set { r with cells }

/-- Consume a line with its end. -/
def consumeLine (n : Nat) : Act Unit := do
  let stop ← add n 2
  consume stop

/-- The first so many bytes that wait. -/
def front (n : Nat) : Act Bytes := do
  let r ← get
  let pending ← r.cells.pending
  slice pending 0 n

/-- Keep the status of a response. -/
def keepStatus (status : Nat) : Act Unit := do
  let r ← get
  set { r with status }

/-- Keep the location of a response, if it names one. -/
def keepLocation (location : Option String) : Act Unit := do
  let r ← get
  set { r with location := location.or r.location }

/-! ## Readers -/

/-- Read the status line and keep its code. -/
def readStatus : Act Nat := do
  let stop ← readLine
  let line ← front stop
  match StatusLine.parse line with
  | .error e => throw e
  | .ok status => do
    consumeLine stop
    keepStatus status
    pure status

/-- Read a line of a block of headers. -/
def readHeadersRound (follow : Bool) : Round HeaderBlock Exchange.Next := fun block => do
  let stop ← readLine
  if stop = 0 then do
    consume 2
    deliverAll block.announcement
    pure (.done (.body block.framing))
  else do
    let line ← front stop
    match block.addLine line with
    | .error e => throw e
    | .ok block => do
      consumeLine stop
      keepLocation block.location
      match follow, block.location with
      | true, some location => pure (.done (.redirect location))
      | _, _ => pure (.again block)

/-- Read the rest of a block of headers. -/
def readHeaders (follow : Bool) (block : HeaderBlock) : Act Exchange.Next :=
  (readHeadersRound follow).loop block

/-- Wait until something is pending. -/
def ensurePending : Act Unit := do
  let r ← get
  let pending ← r.cells.pending
  if pending = [] then fill else pure ()

/-- Hand what is pending to the sink, but no more than so many bytes. -/
def copyRound : Round Nat Unit := fun remaining =>
  if 0 < remaining then do
    ensurePending
    let r ← get
    let pending ← r.cells.pending
    let n := min pending.length remaining
    let part ← slice pending 0 n
    note (.deliver (.write part))
    consume n
    let rest ← sub remaining n
    pure (.again rest)
  else pure (.done ())

/-- Hand so many bytes of the body to the sink, in the slices in which they are pending. -/
def copy (remaining : Nat) : Act Unit :=
  copyRound.loop remaining

/-- Read the first line of a chunk. -/
def readChunkSize : Act Nat := do
  let stop ← readLine
  let line ← front stop
  match ← parseSize line with
  | .error e => throw e
  | .ok size => do
    consumeLine stop
    pure size

/-- Read a chunk. -/
def readChunksRound : Round Unit Unit := fun _ => do
  let size ← readChunkSize
  if size = 0 then do
    note (.deliver (.write []))
    pure (.done ())
  else do
    copy size
    fillTo 2
    let tail ← front 2
    if tail = crlf then do
      consume 2
      pure (.again ())
    else throw .protocol

/-- Read chunks up to the empty one. -/
def readChunks : Act Unit :=
  readChunksRound.loop ()

/-- Read the body of a response. -/
def readBody : Framing → Act Unit
  | .length n => copy n
  | .chunked => readChunks

/-- Read a response. -/
def readResponse (follow : Bool) : Act Client.Step := do
  let status ← readStatus
  if Client.accepts status then
    match ← readHeaders follow {} with
    | .redirect location => pure (.redirect location)
    | .body framing => do
      readBody framing
      pure .complete
  else throw (.status status)

section Steps

variable {r : Rig} {x : Exchange} {n : Nat}

theorem mimics_note (event : Event) (x : Exchange) :
    Mimics (note event) x (.ok () (x.note event)) := by
  intro r h
  refine .ok ((does_get r).bind (does_set r _))
    ⟨h.peer, h.cells, h.timeout, h.status, h.location, ?_⟩
  exact congrArg (· ++ [event]) h.trace

/-- Calls of the sink are noted one by one, which is no business of memory. -/
theorem mimics_deliverAll (calls : List Delivery) (x : Exchange) :
    Mimics (deliverAll calls) x (.ok () (x.deliverAll calls)) := by
  induction calls generalizing x with
  | nil =>
    intro r h
    have hx : x.deliverAll [] = x := by
      rw [Exchange.deliverAll, List.map_nil, List.append_nil]
    rw [hx]
    exact .pure h ()
  | cons call calls ih =>
    intro r h
    have hx : x.deliverAll (call :: calls) = (x.deliver call).deliverAll calls := by
      simp [Exchange.deliverAll, Exchange.deliver, Exchange.note]
    exact hx ▸ (mimics_note (.deliver call) x r h).goOn (ih (x.deliver call))

theorem mimics_consume (hn : n ≤ x.window.pending.length) :
    Mimics (consume n) x (.ok () (x.consume n)) := by
  intro r h
  obtain ⟨cells, hcells, hholds⟩ := h.cells.consume_eq hn
  exact .ok ((does_get r).bind ((does_lift hcells r).bind (does_set r _)))
    ⟨h.peer, hholds, h.timeout, h.status, h.location, h.trace⟩

theorem mimics_consumeLine (hn : n + 2 ≤ x.window.pending.length) :
    Mimics (consumeLine n) x (.ok () (x.consume (n + 2))) := by
  intro r h
  have hfits := x.window.fits
  have hword : n + 2 < UInt64.size := Nat.lt_of_le_of_lt (by omega) h.cells.word
  exact .lift (add_eq hword) (mimics_consume hn r h)

theorem does_front (h : r.Mirrors x) (hn : n ≤ x.window.pending.length) :
    Does (front n) r (.ok (x.front n)) r :=
  (does_get r).bind ((does_lift h.cells.pending_eq r).bind (does_lift (slice_zero hn) r))

theorem mimics_keepStatus (status : Nat) (x : Exchange) :
    Mimics (keepStatus status) x (.ok () { x with status }) := by
  intro r h
  exact .ok ((does_get r).bind (does_set r _))
    ⟨h.peer, h.cells, h.timeout, rfl, h.location, h.trace⟩

theorem mimics_keepLocation (location : Option String) (x : Exchange) :
    Mimics (keepLocation location) x (.ok () { x with location := location.or x.location }) := by
  intro r h
  exact .ok ((does_get r).bind (does_set r _))
    ⟨h.peer, h.cells, h.timeout, h.status, congrArg location.or h.location, h.trace⟩

end Steps

section Readers

variable {x : Exchange}

/-- The status line is read from its line, and the code is stored before it is judged. -/
theorem mimics_readStatus (x : Exchange) : Mimics readStatus x x.readStatus := by
  intro r h
  rw [Exchange.readStatus_eq]
  refine (mimics_readLine x r h).bind fun n y hy s hs => ?_
  have hn := Exchange.le_length_of_readLine hy
  refine .step (does_front hs (by omega)) ?_
  unfold Exchange.takeStatus
  cases StatusLine.parse (y.front n) with
  | error e => exact .throw hs e
  | ok status =>
    refine (mimics_consumeLine hn s hs).goOn fun s hs => ?_
    exact (mimics_keepStatus status _ s hs).goOn fun s hs => .pure hs status

/-- The size of a chunk is read from its line, and the line is consumed with its end. -/
theorem mimics_readChunkSize (x : Exchange) : Mimics readChunkSize x x.readChunkSize := by
  intro r h
  rw [Exchange.readChunkSize_eq]
  refine (mimics_readLine x r h).bind fun n y hy s hs => ?_
  have hn := Exchange.le_length_of_readLine hy
  refine .step (does_front hs (by omega)) (.lift (parseSize_eq _) ?_)
  unfold Exchange.takeChunkSize
  cases Chunk.parseSize (y.front n) with
  | error e => exact .throw hs e
  | ok size => exact (mimics_consumeLine hn s hs).goOn fun s hs => .pure hs size

/-- The loop over header lines comes to what a header block comes to, line by line; it ends because
every line takes something from the stream. -/
theorem mimics_readHeaders (follow : Bool) (block : HeaderBlock) (x : Exchange) :
    Mimics (readHeaders follow block) x (x.readHeaders follow block) := by
  induction hn : x.available using Nat.strongRecOn generalizing block x with
  | ind m ih =>
    subst hn
    intro r h
    rw [Exchange.readHeaders_round]
    refine .loop ?_
    simp only [readHeadersRound, bind_assoc]
    refine (mimics_readLine x r h).bind fun n y hy s hs => ?_
    have hline := Exchange.le_length_of_readLine hy
    unfold Exchange.takeHeader
    by_cases h0 : n = 0
    · subst h0
      simp only [if_pos, bind_assoc]
      refine (mimics_consume (by omega) s hs).goOn fun s hs => ?_
      exact (mimics_deliverAll block.announcement _ s hs).goOn fun s hs => .done hs _
    · simp only [if_neg h0, bind_assoc]
      refine .step (does_front hs (by omega)) ?_
      cases block.addLine (y.front n) with
      | error e => exact .stop (.throw hs e)
      | ok block =>
        simp only [bind_assoc]
        refine (mimics_consumeLine hline s hs).goOn fun s hs => ?_
        refine (mimics_keepLocation block.location _ s hs).goOn fun s hs => ?_
        have hless := Exchange.available_lt_of_readLine hy
        have hrest := ih _ hless block { y.consume (n + 2) with
          location := block.location.or y.location } rfl s hs
        generalize block.location = location at hs hrest ⊢
        cases follow with
        | false => exact .again hrest
        | true =>
          cases location with
          | none => exact .again hrest
          | some location => exact .done hs _

/-- Waiting for one byte does nothing if there is one already. -/
theorem mimics_ensurePending (x : Exchange) : Mimics ensurePending x x.ensurePending := by
  intro r h
  refine .get (.lift h.cells.pending_eq ?_)
  unfold Exchange.ensurePending
  by_cases hnil : x.window.pending = []
  · rw [if_pos hnil, if_pos hnil]
    exact mimics_fill (hnil ▸ x.window.capacity_pos) r h
  · rw [if_neg hnil, if_neg hnil]
    exact .pure h ()

/-- The loop that copies a body takes what waits, up to what is missing, and the subtraction stays
in its word. -/
theorem mimics_copy (remaining : Nat) (x : Exchange) :
    Mimics (copy remaining) x (x.copy remaining) := by
  induction remaining using Nat.strongRecOn generalizing x with
  | ind remaining ih =>
    intro r h
    refine .loop ?_
    by_cases h0 : remaining = 0
    · subst h0
      rw [Exchange.copy, dif_pos rfl]
      exact .done h ()
    · rw [Exchange.copy_round h0]
      simp only [copyRound, if_pos (Nat.pos_of_ne_zero h0), bind_assoc]
      refine (mimics_ensurePending x r h).bind fun u y hy s hs => ?_
      refine .get (.lift hs.cells.pending_eq ?_)
      have hpos := List.length_pos_iff.2 (Exchange.pending_ne_nil_of_ensurePending hy)
      let n := min y.window.pending.length remaining
      have hn : n ≤ y.window.pending.length := Nat.min_le_left _ _
      have hfront : y.window.pending.take n = y.front remaining := by
        rw [Exchange.front, ← List.take_take]
        exact List.take_of_length_le (List.length_take_le' _ _)
      have hlength : (y.front remaining).length = n := by
        rw [← hfront, List.length_take_of_le hn]
      refine .lift (slice_zero hn) ?_
      rw [hfront]
      refine (mimics_note _ y s hs).goOn fun s hs => ?_
      refine (mimics_consume (x := y.deliver (.write (y.front remaining))) hn s hs).goOn
        fun s hs => ?_
      refine .lift (sub_eq (Nat.min_le_right _ _)) ?_
      rw [Exchange.copySlice, hlength]
      exact .again (ih (remaining - n) (by omega) _ s hs)

/-- The loop over chunks comes to what a chunked body comes to: sizes, data and line ends in turn,
up to the empty chunk. -/
theorem mimics_readChunks (x : Exchange) : Mimics readChunks x x.readChunks := by
  induction hn : x.available using Nat.strongRecOn generalizing x with
  | ind m ih =>
    subst hn
    intro r h
    rw [Exchange.readChunks_round]
    refine .loop ?_
    simp only [readChunksRound, bind_assoc]
    refine (mimics_readChunkSize x r h).bind fun size y hy s hs => ?_
    unfold Exchange.takeChunk
    by_cases h0 : size = 0
    · simp only [if_pos h0, bind_assoc]
      exact (mimics_note _ y s hs).goOn fun s hs => .done hs ()
    · simp only [if_neg h0, bind_assoc]
      refine (mimics_copy size y s hs).bind fun u z hz s hs => ?_
      refine (mimics_fillTo 2 z s hs).bind fun u w hw s hs => ?_
      have htail : 2 ≤ w.window.pending.length := by
        have hroom := Exchange.two_le_capacity_of_readChunkSize hy
        have hcapacity := Exchange.Outcome.exchange_of_ok hz ▸ Exchange.capacity_copy size y
        have hle := Exchange.le_length_of_fillTo hw
        omega
      refine .step (does_front hs htail) ?_
      unfold Exchange.closeChunk
      by_cases hend : w.front 2 = crlf
      · simp only [if_pos hend, bind_assoc]
        refine (mimics_consume htail s hs).goOn fun s hs => ?_
        exact .again (ih _ (Exchange.available_lt_of_chunk hy hz hw) _ rfl s hs)
      · rw [if_neg hend, if_neg hend]
        exact .stop (.throw hs .protocol)

theorem mimics_readBody (framing : Framing) (x : Exchange) :
    Mimics (readBody framing) x (x.readBody framing) := by
  cases framing with
  | length n => exact mimics_copy n x
  | chunked => exact mimics_readChunks x

/-- A whole response in memory comes to what the response of an exchange comes to, whatever the peer
does. -/
theorem mimics_readResponse (follow : Bool) (x : Exchange) :
    Mimics (readResponse follow) x (Client.readResponse follow x) := by
  intro r h
  rw [Exchange.readResponse_eq]
  refine (mimics_readStatus x r h).bind fun status y hy s hs => ?_
  unfold Exchange.judge
  by_cases hstatus : Client.accepts status = true
  · rw [if_pos hstatus, if_pos hstatus]
    refine (mimics_readHeaders follow {} y s hs).bind fun next z hz s hs => ?_
    cases next with
    | redirect location => exact .pure hs _
    | body framing =>
      exact (mimics_readBody framing z s hs).bind fun u w hw s hs => .pure hs _
  · rw [if_neg hstatus, if_neg hstatus]
    exact .throw hs _

end Readers

end DeviceHttp.Machine
