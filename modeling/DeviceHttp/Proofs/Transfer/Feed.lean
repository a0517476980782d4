import DeviceHttp.Proofs.Transfer.Outline
import DeviceHttp.Proofs.Transfer.Sequence
import DeviceHttp.Proofs.Transfer.Stream

/-!
# Reading a response that is there whole

A reader sees its response through a window that is filled piece by piece. A `Feed` is the same
response without the window: all the bytes that are not consumed, those that wait and those that
will arrive. The readers below do on a feed what the readers of an exchange do through the window;
since nothing has to be waited for, each of them looks at the bytes once.

Only the capacity of the window is left of it, because a line that does not fit is an error. A
failure leaves a `Record`; what is left of the stream after a failure is nobody's concern.
-/

namespace DeviceHttp

/-- What is still seen of an exchange when it is over. -/
structure Record where
  capacity : Nat
  source : Option Source
  status : Nat
  location : Option String
  outline : List Event

/-- A response on the way, without window and pieces. -/
structure Feed extends Record where
  /-- The bytes that are not consumed. -/
  bytes : Bytes
  ending : StreamEnd
  /-- How many bytes there were from the start. -/
  total : Nat

namespace Exchange

/-- What is still seen of an exchange when it is over. -/
def record (x : Exchange) : Record where
  capacity := x.window.capacity
  source := x.source
  status := x.status
  location := x.location
  outline := DeviceHttp.outline x.trace

/-- The response of an exchange, without window and pieces. -/
def feed (x : Exchange) : Feed where
  toRecord := x.record
  bytes := x.window.pending ++ x.peer.stream
  ending := x.peer.ending
  total := received x.trace + x.peer.stream.length

end Exchange

namespace Feed

/-- A result, or a failure, with the feed that it leaves. -/
abbrev Outcome (α : Type) := EStateM.Result TransferError Feed α

/-- Hand a part of the body to the sink. -/
def tell (body : Bytes) (f : Feed) : Feed :=
  { f with outline := f.outline ++ bytewise body }

/-- Call the sink several times. -/
def deliverAll (calls : List Delivery) (f : Feed) : Feed :=
  { f with outline := f.outline ++ DeviceHttp.outline (calls.map Event.deliver) }

/-- Consume bytes at the front. -/
def consume (n : Nat) (f : Feed) : Feed :=
  { f with bytes := f.bytes.drop n }

/-- The first so many bytes. -/
def front (n : Nat) (f : Feed) : Bytes :=
  f.bytes.take n

/-- At least `want` bytes must be there, or as many as a window holds. -/
def fillTo (want : Nat) (f : Feed) : Outcome Unit :=
  if min want f.capacity ≤ f.bytes.length then .ok () f else .error f.ending.error f

/-- The length of the first line, if it fits with its end. -/
def lineLength? (f : Feed) : Option Nat :=
  (Cut.around Window.crlf (f.bytes.take f.capacity)).map fun parts => parts.1.length

/-- Why there is no line: it does not fit, or the stream ends in it. -/
def lineError (f : Feed) : TransferError :=
  if f.capacity ≤ f.bytes.length then .protocol else f.ending.error

/-- The length of the first line. -/
def readLine (f : Feed) : Outcome Nat :=
  match f.lineLength? with
  | some n => .ok n f
  | none => .error f.lineError f

/-- A line is found only with its line end, which is among the bytes of the feed as well. -/
theorem lineLength?_le {f : Feed} {n : Nat} (h : f.lineLength? = some n) :
    n + 2 ≤ f.bytes.length := by
  rcases Option.map_eq_some_iff.1 h with ⟨⟨line, rest⟩, hcut, rfl⟩
  have := congrArg List.length (Cut.eq_append_of_around hcut)
  simp only [Window.crlf, List.length_take, List.length_append, List.length_cons,
    List.length_nil] at this
  show line.length + 2 ≤ _
  omega

/-- A line is read where one is found, and reading it consumes nothing. There is no other success: a
line that does not end within the window is an error, whatever follows it. -/
theorem readLine_eq_ok_iff {f g : Feed} {n : Nat} :
    f.readLine = .ok n g ↔ f.lineLength? = some n ∧ g = f := by
  unfold readLine
  constructor
  · intro h
    split at h
    · next m hm =>
      rcases EStateM.Result.ok.inj h with ⟨rfl, rfl⟩
      exact ⟨hm, rfl⟩
    · cases h
  · rintro ⟨hm, rfl⟩
    rw [hm]

/-- The code of a status line of this length. -/
def takeStatus (n : Nat) (f : Feed) : Outcome Nat :=
  match StatusLine.parse (f.front n) with
  | .error e => .error e f
  | .ok code => .ok code { f.consume (n + 2) with status := code }

/-- Read the status line and keep its code. -/
def readStatus (f : Feed) : Outcome Nat :=
  andThen f.readLine takeStatus

/-- Read the rest of a block of headers, of which `block` is known. -/
def readHeaders (follow : Bool) (block : HeaderBlock) (f : Feed) : Outcome Exchange.Next :=
  match _h : f.readLine with
  | .error e g => .error e g
  | .ok n g =>
    if n = 0 then .ok (.body block.framing) ((g.consume 2).deliverAll block.announcement)
    else
      match block.addLine (g.front n) with
      | .error e => .error e g
      | .ok block =>
        match follow, block.location with
        | true, some location =>
          .ok (.redirect location) { g.consume (n + 2) with location := some location }
        | _, _ =>
          readHeaders follow block
            { g.consume (n + 2) with location := block.location.or g.location }
termination_by f.bytes.length
decreasing_by
  rcases readLine_eq_ok_iff.1 _h with ⟨hn, rfl⟩
  have := lineLength?_le hn
  simp only [consume, List.length_drop]
  omega

section HeaderRounds

/-! ### One round of the headers -/

variable {f g : Feed} {follow : Bool} {block later : HeaderBlock} {n : Nat} {e : TransferError}

/-- Where no line can be read, the block comes to an end with that error. -/
theorem readHeaders_of_error (h : f.readLine = .error e g) :
    f.readHeaders follow block = .error e g := by
  rw [readHeaders]
  split
  · next h' =>
    rcases EStateM.Result.error.inj (h.symm.trans h') with ⟨rfl, rfl⟩
    rfl
  · next h' => cases h.symm.trans h'

/-- One round of a header block, for a line that can be read. The empty line announces the body; any
other line goes into the block, and the first location ends the block if locations are followed. -/
theorem readHeaders_of_ok (h : f.readLine = .ok n g) :
    f.readHeaders follow block =
      if n = 0 then .ok (.body block.framing) ((g.consume 2).deliverAll block.announcement)
      else
        match block.addLine (g.front n) with
        | .error e => .error e g
        | .ok block =>
          match follow, block.location with
          | true, some location =>
            .ok (.redirect location) { g.consume (n + 2) with location := some location }
          | _, _ =>
            readHeaders follow block
              { g.consume (n + 2) with location := block.location.or g.location } := by
  rw [readHeaders]
  split
  · next h' => cases h.symm.trans h'
  · next h' =>
    rcases EStateM.Result.ok.inj (h.symm.trans h') with ⟨rfl, rfl⟩
    rfl

theorem readHeaders_blank (h : f.readLine = .ok 0 g) :
    f.readHeaders follow block
      = .ok (.body block.framing) ((g.consume 2).deliverAll block.announcement) := by
  rw [readHeaders_of_ok h, if_pos rfl]

theorem readHeaders_malformed (h : f.readLine = .ok n g) (hn : n ≠ 0)
    (hb : block.addLine (g.front n) = .error e) : f.readHeaders follow block = .error e g := by
  rw [readHeaders_of_ok h, if_neg hn, hb]

/-- The line with the location is the last one that is read of a response that is followed. What
stands behind it stays in the feed. -/
theorem readHeaders_redirect {location : String} (h : f.readLine = .ok n g) (hn : n ≠ 0)
    (hb : block.addLine (g.front n) = .ok later) (hl : later.location = some location) :
    f.readHeaders true block
      = .ok (.redirect location) { g.consume (n + 2) with location := some location } := by
  rw [readHeaders_of_ok h, if_neg hn, hb]
  dsimp only
  rw [hl]

/-- A line that does not end the block is consumed, and a location in it comes in front of an
earlier one. The rest of the block is read as a block of its own. -/
theorem readHeaders_line (h : f.readLine = .ok n g) (hn : n ≠ 0)
    (hb : block.addLine (g.front n) = .ok later) (hl : follow = true → later.location = none) :
    f.readHeaders follow block
      = readHeaders follow later
          { g.consume (n + 2) with location := later.location.or g.location } := by
  rw [readHeaders_of_ok h, if_neg hn, hb]
  dsimp only
  split
  · next hlocation => cases hlocation.symm.trans (hl rfl)
  · rfl

end HeaderRounds

/-- Consume bytes at the front, as far as they are there, and hand them to the sink. -/
def pass (n : Nat) (f : Feed) : Feed :=
  (f.consume n).tell (f.front n)

/-- Hand so many bytes of the body to the sink. -/
def copy (n : Nat) (f : Feed) : Outcome Unit :=
  if n ≤ f.bytes.length then .ok () (f.pass n) else .error f.ending.error (f.pass n)

theorem length_bytes_pass (n : Nat) (f : Feed) :
    (f.pass n).bytes.length = f.bytes.length - n :=
  List.length_drop

theorem pass_add (k n : Nat) (f : Feed) : f.pass (k + n) = (f.pass k).pass n := by
  simp only [pass, tell, consume, front, List.take_add, List.drop_drop, bytewise_append,
    List.append_assoc]

@[simp] theorem copy_zero (f : Feed) : f.copy 0 = .ok () f := by
  simp [copy, pass, consume, front, tell]

/-- A body can be handed over in two parts. -/
theorem copy_add {k n : Nat} {f : Feed} (hk : k ≤ f.bytes.length) :
    f.copy (k + n) = (f.pass k).copy n := by
  by_cases hn : k + n ≤ f.bytes.length
  · have hrest : n ≤ (f.pass k).bytes.length := by
      rw [length_bytes_pass]
      omega
    rw [copy, if_pos hn, copy, if_pos hrest, pass_add]
  · have hrest : ¬ n ≤ (f.pass k).bytes.length := by
      rw [length_bytes_pass]
      omega
    rw [copy, if_neg hn, copy, if_neg hrest, pass_add]
    rfl

/-- The size of a chunk whose first line has this length. -/
def takeChunkSize (n : Nat) (f : Feed) : Outcome Nat :=
  match Chunk.parseSize (f.front n) with
  | .error e => .error e f
  | .ok size => .ok size (f.consume (n + 2))

/-- Read the first line of a chunk. -/
def readChunkSize (f : Feed) : Outcome Nat :=
  andThen f.readLine takeChunkSize

/-- A size costs at least its line end, so a round of the chunks takes something from the feed. This
is what ends the loop over them. -/
theorem length_lt_of_readChunkSize {f g : Feed} {size : Nat} (h : f.readChunkSize = .ok size g) :
    g.bytes.length < f.bytes.length := by
  rcases ok_of_andThen h with ⟨n, k, hk, htake⟩
  rcases readLine_eq_ok_iff.1 hk with ⟨hn, rfl⟩
  have hle := lineLength?_le hn
  unfold takeChunkSize at htake
  split at htake
  · cases htake
  · rcases EStateM.Result.ok.inj htake with ⟨-, rfl⟩
    simp only [consume, List.length_drop]
    omega

theorem copy_eq_ok {f g : Feed} {n : Nat} {u : Unit} (h : f.copy n = .ok u g) :
    n ≤ f.bytes.length ∧ g = f.pass n := by
  unfold copy at h
  split at h
  · next hn => exact ⟨hn, (EStateM.Result.ok.inj h).2.symm⟩
  · cases h

theorem fillTo_eq_ok {f g : Feed} {want : Nat} {u : Unit} (h : f.fillTo want = .ok u g) :
    g = f := by
  unfold fillTo at h
  split at h
  · exact (EStateM.Result.ok.inj h).2.symm
  · cases h

/-- Waiting fails only where the stream has ended, with the error for the way it ended. What is
there stays as it is. -/
theorem fillTo_eq_error {f g : Feed} {want : Nat} {e : TransferError}
    (h : f.fillTo want = .error e g) :
    f.bytes.length < min want f.capacity ∧ f.ending.error = e ∧ g = f := by
  unfold fillTo at h
  split at h
  · cases h
  · next hlt =>
    rcases EStateM.Result.error.inj h with ⟨rfl, rfl⟩
    exact ⟨Nat.lt_of_not_le hlt, rfl, rfl⟩

/-- Read chunks up to the empty one. -/
def readChunks (f : Feed) : Outcome Unit :=
  match _h : f.readChunkSize with
  | .error e g => .error e g
  | .ok size g =>
    if size = 0 then .ok () (g.deliverAll [.write []])
    else
      match _hc : g.copy size with
      | .error e g => .error e g
      | .ok _ g =>
        match _hf : g.fillTo 2 with
        | .error e g => .error e g
        | .ok _ g =>
          if g.front 2 = Window.crlf then readChunks (g.consume 2) else .error .protocol g
termination_by f.bytes.length
decreasing_by
  obtain rfl := fillTo_eq_ok _hf
  obtain ⟨-, rfl⟩ := copy_eq_ok _hc
  have := length_lt_of_readChunkSize _h
  simp only [consume, List.length_drop, length_bytes_pass]
  omega

section ChunkRounds

/-! ### One round of the chunks -/

variable {f g : Feed} {size : Nat} {e : TransferError}

/-- Where no size can be read, the body comes to an end with that error. -/
theorem readChunks_of_error (h : f.readChunkSize = .error e g) : f.readChunks = .error e g := by
  rw [readChunks]
  split
  · next h' =>
    rcases EStateM.Result.error.inj (h.symm.trans h') with ⟨rfl, rfl⟩
    rfl
  · next h' => cases h.symm.trans h'

/-- One round of the chunks, for a size that can be read. Size zero is the end of the body, which
the sink is told; otherwise the data is copied, and the line end behind it is taken. -/
theorem readChunks_of_ok (h : f.readChunkSize = .ok size g) :
    f.readChunks =
      if size = 0 then .ok () (g.deliverAll [.write []])
      else
        match g.copy size with
        | .error e g => .error e g
        | .ok _ g =>
          match g.fillTo 2 with
          | .error e g => .error e g
          | .ok _ g =>
            if g.front 2 = Window.crlf then readChunks (g.consume 2) else .error .protocol g := by
  rw [readChunks]
  split
  · next h' => cases h.symm.trans h'
  · next h' =>
    rcases EStateM.Result.ok.inj (h.symm.trans h') with ⟨rfl, rfl⟩
    split
    · rfl
    · split
      · next hc => rw [hc]
      · next hc =>
        rw [hc]
        dsimp only
        split
        · next hf => rw [hf]
        · next hf => rw [hf]

end ChunkRounds

/-- Read the body of a response. -/
def readBody (framing : Framing) (f : Feed) : Outcome Unit :=
  match framing with
  | .length n => f.copy n
  | .chunked => f.readChunks

/-- What is behind a block of headers. -/
def finish (next : Exchange.Next) (f : Feed) : Outcome Client.Step :=
  match next with
  | .redirect location => .ok (.redirect location) f
  | .body framing => andThen (f.readBody framing) fun _ f => .ok .complete f

/-- What is behind a status line. -/
def judge (follow : Bool) (status : Nat) (f : Feed) : Outcome Client.Step :=
  if Client.accepts status then andThen (f.readHeaders follow {}) finish
  else .error (.status status) f

/-- Read a response. -/
def readResponse (follow : Bool) (f : Feed) : Outcome Client.Step :=
  andThen f.readStatus (judge follow)

end Feed

end DeviceHttp
