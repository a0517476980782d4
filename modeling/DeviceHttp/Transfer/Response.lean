import DeviceHttp.Transfer.Exchange
import DeviceHttp.Transfer.HeaderBlock
import DeviceHttp.Transfer.Line

/-!
# Responses

A response is read from the working buffer: the status line, the headers, and the body, whose slices
go to the sink as they arrive. Each loop ends because every line and every slice that is consumed
leaves less to read (`available_lt_of_readLine`, `available_copy_le`).
-/

namespace DeviceHttp.Exchange

/-! ## Status and headers -/

/-- Read the status line and keep its code. -/
def readStatus (x : Exchange) : Outcome Nat :=
  match x.readLine with
  | .error e x => .error e x
  | .ok n x =>
    match StatusLine.parse (x.front n) with
    | .error e => .error e x
    | .ok code => .ok code { x.consume (n + 2) with status := code }

/-- What the headers of a response lead to. -/
inductive Next
  /-- Another attempt, at this location. -/
  | redirect (location : String)
  /-- The body of this response. -/
  | body (framing : Framing)
  deriving DecidableEq, Repr

/-- Read the rest of a block of headers, of which `block` is known. A location is kept, and ends the
block at once if it is to be followed; a block that is read to its end is announced to the sink. -/
def readHeaders (follow : Bool) (block : HeaderBlock) (x : Exchange) : Outcome Next :=
  match _h : x.readLine with
  | .error e y => .error e y
  | .ok n y =>
    if n = 0 then .ok (.body block.framing) ((y.consume 2).deliverAll block.announcement)
    else
      match block.addLine (y.front n) with
      | .error e => .error e y
      | .ok block =>
        match follow, block.location with
        | true, some location =>
          .ok (.redirect location) { y.consume (n + 2) with location := some location }
        | _, _ =>
          readHeaders follow block
            { y.consume (n + 2) with location := block.location.or y.location }
termination_by x.available
decreasing_by exact available_lt_of_readLine _h

/-! ## The body -/

/-- Wait until something is pending. -/
def ensurePending (x : Exchange) : Outcome Unit :=
  if x.window.pending = [] then x.fill else .ok () x

theorem pending_ne_nil_of_ensurePending {x y : Exchange} {u : Unit}
    (h : x.ensurePending = .ok u y) : y.window.pending ≠ [] := by
  unfold ensurePending at h
  split at h
  · have := le_length_of_fillTo h
    have hpos := x.window.capacity_pos
    intro hnil
    rw [hnil] at this
    simp only [List.length_nil] at this
    omega
  · next hne =>
    obtain ⟨rfl, rfl⟩ := EStateM.Result.ok.inj h
    exact hne

theorem available_ensurePending (x : Exchange) :
    x.ensurePending.exchange.available = x.available := by
  unfold ensurePending
  split
  · exact available_fillTo _ x
  · rfl

/-- Hand so many bytes of the body to the sink, in the slices in which they are pending. -/
def copy (remaining : Nat) (x : Exchange) : Outcome Unit :=
  if _h0 : remaining = 0 then .ok () x
  else
    match _h : x.ensurePending with
    | .error e y => .error e y
    | .ok _ y =>
      let slice := y.front remaining
      copy (remaining - slice.length) ((y.consume slice.length).deliver (.write slice))
termination_by remaining
decreasing_by
  have := List.length_pos_iff.2 (pending_ne_nil_of_ensurePending _h)
  simp only [front, List.length_take]
  omega

/-- Copying makes no bytes. -/
theorem available_copy_le (remaining : Nat) (x : Exchange) :
    (x.copy remaining).exchange.available ≤ x.available := by
  fun_induction copy remaining x with
  | case1 => exact Nat.le_refl _
  | case2 remaining x h0 e y h =>
    have := available_ensurePending x
    rw [h] at this
    exact Nat.le_of_eq this
  | case3 remaining x h0 u y h slice ih =>
    have h1 := available_ensurePending x
    rw [h] at h1
    have h2 := available_consume_le slice.length y
    simp only [Outcome.exchange] at h1
    exact Nat.le_trans ih (h1 ▸ h2)

/-- Read the first line of a chunk. -/
def readChunkSize (x : Exchange) : Outcome Nat :=
  match x.readLine with
  | .error e x => .error e x
  | .ok n x =>
    match Chunk.parseSize (x.front n) with
    | .error e => .error e x
    | .ok size => .ok size (x.consume (n + 2))

theorem available_lt_of_readChunkSize {x y : Exchange} {size : Nat}
    (h : x.readChunkSize = .ok size y) : y.available < x.available := by
  unfold readChunkSize at h
  split at h
  · simp at h
  · next n z hz =>
    split at h
    · simp at h
    · obtain ⟨-, rfl⟩ := EStateM.Result.ok.inj h
      exact available_lt_of_readLine hz

/-- Read chunks up to the empty one, which is handed to the sink as the end of the body; what follows
it is left unread. -/
def readChunks (x : Exchange) : Outcome Unit :=
  match _h : x.readChunkSize with
  | .error e y => .error e y
  | .ok size y =>
    if size = 0 then .ok () (y.deliver (.write []))
    else
      match _hc : y.copy size with
      | .error e z => .error e z
      | .ok _ z =>
        match _hf : z.fillTo 2 with
        | .error e w => .error e w
        | .ok _ w =>
          if w.front 2 = Window.crlf then readChunks (w.consume 2) else .error .protocol w
termination_by x.available
decreasing_by
  have h1 := available_lt_of_readChunkSize _h
  have h2 := available_copy_le size y
  have h3 := available_fillTo 2 z
  have h4 := available_consume_le 2 w
  rw [_hc] at h2
  rw [_hf] at h3
  simp only [Outcome.exchange] at h2 h3
  omega

/-- Read the body of a response. -/
def readBody (framing : Framing) (x : Exchange) : Outcome Unit :=
  match framing with
  | .length n => x.copy n
  | .chunked => x.readChunks

end DeviceHttp.Exchange
