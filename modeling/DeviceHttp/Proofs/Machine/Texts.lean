import DeviceHttp.Proofs.Machine.Words
import DeviceHttp.Proofs.Transfer.Fetches

/-!
# A text in the front of a buffer

The buffer of a caller stands in memory as a whole, and a text sink is given the front of it: what
it writes there is written in the buffer. Every write is checked against the part that was given
(`Machine.writeText`), and comes to what the sink makes of a buffer of its own
(`TextSink.tellTextAll_inFrontOf`). So a text that is fetched is in front of what was in the buffer,
and of no response but the one that the transaction ended on is there anything
(`Client.getText_fills_front`).
-/

namespace DeviceHttp

open Window (crlf)

namespace Machine

/-- A text sink that was given the first `room` cells of a buffer. -/
structure TextCells where
  cells : Bytes
  room : Nat
  length : Nat := 0
  contentType : String := ""
  deriving DecidableEq, Repr

/-- Copy the front of a slice behind what is there, as far as there is room. -/
def writeText (bytes : Bytes) (s : TextCells) : Checked (Nat × TextCells) := do
  let given ← slice s.cells 0 s.room
  let left ← sub given.length s.length
  let n := min bytes.length left
  let kept ← slice bytes 0 n
  let given ← put given s.length kept
  let cells ← put s.cells 0 given
  pure (n, { s with cells, length := s.length + n })

/-- One call to the sink; only a write touches the buffer. -/
def tellText (s : TextCells) : Delivery → Checked TextCells
  | .reset => pure { s with length := 0, contentType := "" }
  | .setLength _ => pure s
  | .setChunked _ => pure s
  | .setContentType value => pure { s with contentType := (ContentType.kept? value).getD "" }
  | .write bytes => do
    let (_, s) ← writeText bytes s
    pure s

/-- A list of calls to the sink. -/
def tellTextAll (s : TextCells) (calls : List Delivery) : Checked TextCells :=
  calls.foldlM tellText s

end Machine

namespace TextSink

open Machine (TextCells put put_eq slice_zero sub_eq tellText tellTextAll writeText)

/-- The sink over the front of a buffer that has these bytes behind it. -/
def inFrontOf (behind : Bytes) (s : TextSink) : TextCells :=
  ⟨s.buffer ++ behind, s.buffer.length, s.length, s.contentType⟩

variable {s : TextSink} {behind : Bytes}

/-- A text is never longer than its buffer, whatever the sink is called with. -/
theorem length_accept_le (h : s.length ≤ s.buffer.length) (call : Delivery) :
    (Sink.accept s call).length ≤ (Sink.accept s call).buffer.length := by
  cases call with
  | reset => exact Nat.zero_le _
  | setLength n => exact h
  | setChunked on => exact h
  | setContentType value => exact h
  | write bytes =>
    show (s.write bytes).2.length ≤ (s.write bytes).2.buffer.length
    rw [length_buffer_write bytes s h]
    simp only [write, List.length_take]
    omega

/-- A write stays in the part of the buffer that was given. What stands behind that part is no
business of the sink. -/
theorem writeText_inFrontOf (h : s.length ≤ s.buffer.length) (bytes : Bytes) :
    writeText bytes (s.inFrontOf behind)
      = pure ((s.write bytes).1, (s.write bytes).2.inFrontOf behind) := by
  have hgiven : (s.buffer ++ behind).take s.buffer.length = s.buffer := List.take_left
  have hkept : bytes.take (min bytes.length (s.buffer.length - s.length))
      = bytes.take (s.buffer.length - s.length) := by
    rw [List.take_eq_take_iff]
    omega
  have hcount : (bytes.take (s.buffer.length - s.length)).length
      = min bytes.length (s.buffer.length - s.length) := by
    rw [List.length_take, Nat.min_comm]
  have hfits : s.length + (bytes.take (s.buffer.length - s.length)).length ≤ s.buffer.length := by
    omega
  have hsize := length_buffer_write bytes s h
  have hfront : 0 + (s.write bytes).2.buffer.length ≤ (s.buffer ++ behind).length := by
    rw [hsize, List.length_append]
    omega
  have hbehind : (s.buffer ++ behind).drop (0 + (s.write bytes).2.buffer.length) = behind := by
    rw [hsize, Nat.zero_add, List.drop_left]
  unfold writeText inFrontOf
  dsimp only
  rw [slice_zero (by simp), pure_bind, hgiven, sub_eq h, pure_bind,
    slice_zero (Nat.min_le_left _ _), pure_bind, hkept, put_eq hfits, pure_bind]
  change put (s.buffer ++ behind) 0 (s.write bytes).2.buffer >>= _ = _
  rw [put_eq hfront, pure_bind, hbehind, hsize, ← hcount]
  rfl

theorem tellText_inFrontOf (h : s.length ≤ s.buffer.length) (call : Delivery) :
    tellText (s.inFrontOf behind) call = pure ((Sink.accept s call).inFrontOf behind) := by
  cases call with
  | write bytes =>
    rw [tellText, writeText_inFrontOf h, pure_bind]
    rfl
  | _ => rfl

/-- No index leaves the part that was given, and no call changes what is behind it. -/
theorem tellTextAll_inFrontOf (h : s.length ≤ s.buffer.length) (calls : List Delivery) :
    tellTextAll (s.inFrontOf behind) calls = pure ((Sink.acceptAll s calls).inFrontOf behind) := by
  induction calls generalizing s with
  | nil => rfl
  | cons call calls ih =>
    rw [tellTextAll, List.foldlM_cons, tellText_inFrontOf h, pure_bind]
    exact ih (length_accept_le h call)

end TextSink

/-! ## What there is to keep -/

/-- What was decoded of the response to an attempt: nothing where no status was accepted or the
headers came to no end, and else the content as far as it came; `whole` says whether all of it
did. -/
inductive Visit.Decodes (v : Visit) (t : Transaction Client.Step) : Bytes → Bool → Prop
  | refused
    (unopened : ∀ code ls block rest, ¬ Opens v.capacity (heard t.events) code ls block rest) :
    Decodes v t [] false
  | broken {code : Nat} {ls : List Bytes} {block : HeaderBlock} {rest : Bytes}
    (opens : Opens v.capacity (heard t.events) code ls block rest)
    (stuck : block.Stuck v.capacity rest) : Decodes v t [] false
  | body {code : Nat} {ls : List Bytes} {block : HeaderBlock} {rest content : Bytes} {whole : Bool}
    (opens : Opens v.capacity (heard t.events) code ls block (crlf ++ rest))
    (stay : v.follows = true → block.location = none)
    (framed : Content v.capacity rest block.framing content whole) : Decodes v t content whole

/-- An attempt that is the last one hands over what was decoded, and succeeds if that is all. -/
theorem Visit.exists_decodes {v : Visit} {method : Method} {timeout : Nat}
    (hends : ∀ location, (v.attempt method timeout).result ≠ .ok (.redirect location)) :
    let t := v.attempt method timeout
    ∃ content whole, v.Decodes t content whole ∧ Delivery.written t.deliveries = content ∧
      .reset ∉ t.deliveries ∧
      (whole = true ∧ t.result = .ok .complete ∨ whole = false ∧ ∃ e, t.result = .error e) := by
  intro t
  cases v.attempt_ended method timeout with
  | refused result unopened calls =>
    exact ⟨[], false, .refused unopened, by rw [calls]; rfl, by rw [calls]; simp,
      .inr ⟨rfl, _, result⟩⟩
  | fault result opens stay stuck calls =>
    exact ⟨[], false, .broken opens stuck, by rw [calls]; rfl, by rw [calls]; simp,
      .inr ⟨rfl, _, result⟩⟩
  | redirect result => exact absurd result (hends _)
  | @body code ls block rest content whole slices result opens stay framed cut nonempty narrow
      calls =>
    refine ⟨content, whole, .body opens stay framed, ?_, ?_, ?_⟩
    · rw [calls, Delivery.written_of_handed, cut]
    · have hhanded : Delivery.Handover v.capacity _ _ := Delivery.handover_of_content framed cut
        nonempty narrow (complete_iff_whole result).symm
      rw [calls]
      exact hhanded.reset_not_mem
    · exact result.imp And.symm And.symm

/-- A buffer that has the front of a body, as far as there is room, and behind that what was there
before. -/
structure TextSink.Fills (before body : Bytes) (s : TextSink) : Prop where
  holds : s.Holds before.length body
  behind : s.buffer.drop s.length = before.drop s.length

namespace TextSink.Fills

variable {before body : Bytes} {s : TextSink}

theorem write (h : s.Fills before body) (slice : Bytes) :
    (s.write slice).2.Fills before (body ++ slice) := by
  have hgrows : (s.write slice).2.length
      = s.length + (slice.take (s.buffer.length - s.length)).length := rfl
  refine ⟨h.holds.write slice, ?_⟩
  rw [drop_write slice s h.holds.fits_buffer, hgrows, ← List.drop_drop, h.behind, List.drop_drop]

theorem acceptAll {calls : List Delivery} (h : s.Fills before body) (hcalls : .reset ∉ calls) :
    (Sink.acceptAll s calls).Fills before (body ++ Delivery.written calls) :=
  Sink.acceptAll_written (fun _ h => h) (fun _ h => h)
    (fun _ h => ⟨⟨h.holds.size, h.holds.fits, h.holds.bytes⟩, h.behind⟩)
    (fun slice h => h.write slice) h hcalls

/-- A sink that was reset has nothing of a body. -/
theorem reset (buffer : Bytes) : (Sink.reset { buffer : TextSink }).Fills buffer [] :=
  ⟨⟨rfl, Nat.zero_le _, List.take_nil.symm⟩, rfl⟩

/-- A sink over the front of a buffer, with the rest of the buffer behind it. -/
theorem front_eq {buffer : Bytes} {room : Nat} (hroom : room ≤ buffer.length)
    (h : s.Fills (buffer.take room) body) :
    s.buffer ++ buffer.drop room = body.take room ++ buffer.drop (min room body.length) := by
  have hsize : (buffer.take room).length = room := List.length_take_of_le hroom
  have hbuffer : s.buffer = body.take room ++ (buffer.take room).drop (min room body.length) := by
    have hlength : s.length = min room body.length := by rw [h.holds.length_eq, hsize]
    rw [← hlength, ← h.behind, ← hsize, ← h.holds.bytes, TextSink.bytes, List.take_append_drop]
  have hbehind : min room body.length ≤ (buffer.take room).length := by omega
  rw [hbuffer, List.append_assoc, ← List.drop_append_of_le_length hbehind, List.take_append_drop]

end TextSink.Fills

/-! ## A text that is fetched -/

namespace Client

open Machine (tellTextAll)

variable (c : Client) (address : String) (buffer : Bytes) (limit timeout : Nat)

/-- The sink over the front of the buffer of a caller, behind the calls of the transaction. -/
def textSink : TextSink :=
  (c.get address timeout).into { buffer := buffer.take (min limit buffer.length) }

theorem getText_snd :
    (c.getText address buffer limit timeout).2
      = (c.textSink address buffer limit timeout).buffer ++ buffer.drop (min limit buffer.length) :=
  rfl

theorem getText_result :
    (c.getText address buffer limit timeout).1.result
      = (c.get address timeout).result.map
          fun _ => (c.textSink address buffer limit timeout).length := rfl

/-- In memory the calls of the transaction come to the same. -/
theorem tellTextAll_getText :
    tellTextAll { cells := buffer, room := min limit buffer.length }
        (c.getText address buffer limit timeout).1.deliveries
      = pure ((c.textSink address buffer limit timeout).inFrontOf
          (buffer.drop (min limit buffer.length))) := by
  let before : TextSink := { buffer := buffer.take (min limit buffer.length) }
  have hbefore : before.inFrontOf (buffer.drop (min limit buffer.length))
      = { cells := buffer, room := min limit buffer.length } := by
    rw [TextSink.inFrontOf, List.take_append_drop, List.length_take_of_le (Nat.min_le_right _ _)]
  rw [← hbefore]
  exact TextSink.tellTextAll_inFrontOf (Nat.zero_le _) _

/-- The sink has the front of what was decoded of the response to the last attempt, since nothing
was handed over before it. -/
theorem textSink_fills :
    ∃ before last content whole,
      Visit.Trail .get timeout (c.firstVisit address none) (before ++ [last]) ∧
      (c.get address timeout).events
        = .deliver .reset :: Visit.eventsOf .get timeout (before ++ [last]) ∧
      last.Decodes (last.attempt .get timeout) content whole ∧
      (whole = true ↔ (c.get address timeout).result = .ok ()) ∧
      Delivery.written (c.get address timeout).deliveries = content ∧
      (c.textSink address buffer limit timeout).Fills (buffer.take (min limit buffer.length))
        content := by
  obtain ⟨before, last, htrail, hevents, hends, -, hresult, hcalls⟩ :=
    c.exists_last .get address none timeout
  obtain ⟨content, whole, hdecodes, hwritten, hreset, hwhole⟩ := Visit.exists_decodes hends
  refine ⟨before, last, content, whole, htrail, hevents, hdecodes, ?_, ?_, ?_⟩
  · rw [get, hresult]
    rcases hwhole with ⟨rfl, hcomplete⟩ | ⟨rfl, e, herror⟩
    · exact ⟨fun _ => by rw [hcomplete]; rfl, fun _ => rfl⟩
    · rw [herror]
      exact ⟨nofun, nofun⟩
  · rw [get, hcalls, ← hwritten]
    rfl
  · have hlast := (TextSink.Fills.reset (buffer.take (min limit buffer.length))).acceptAll hreset
    rw [List.nil_append, hwritten] at hlast
    change TextSink.Fills _ _ (Sink.acceptAll _ (c.execute .get address none timeout).deliveries)
    rw [hcalls]
    exact hlast

/-- A text that is fetched into a buffer. The buffer has the front of what was decoded of the
response to the last attempt, as far as there is room for it below the limit, and behind that all is
as it was; in memory the calls of the transaction come to the same, and no index leaves the part
below the limit. The fetch succeeds if and only if the response came whole, and then the number is
how much of it there is. Nothing is there of a response that was followed, or that has no status
that is accepted. -/
theorem getText_fills_front :
    let room := min limit buffer.length
    let u := c.getText address buffer limit timeout
    ∃ before last content whole,
      Visit.Trail .get timeout (c.firstVisit address none) (before ++ [last]) ∧
      u.1.events = .deliver .reset :: Visit.eventsOf .get timeout (before ++ [last]) ∧
      last.Decodes (last.attempt .get timeout) content whole ∧
      u.2 = content.take room ++ buffer.drop (min room content.length) ∧
      u.2.length = buffer.length ∧ u.2.drop room = buffer.drop room ∧
      (whole = true ↔ ∃ n, u.1.result = .ok n) ∧
      (∀ n, u.1.result = .ok n → n = min room content.length ∧ u.2.take n = content.take n ∧
        ∃ r, c.EndsOn .get address none timeout r ∧ r.content = content) ∧
      ∃ type, tellTextAll { cells := buffer, room } u.1.deliveries
        = pure ⟨u.2, room, min room content.length, type⟩ := by
  intro room u
  obtain ⟨before, last, content, whole, htrail, hevents, hdecodes, hwhole, hwritten, hfills⟩ :=
    c.textSink_fills address buffer limit timeout
  have hresult := c.getText_result address buffer limit timeout
  have htold := c.tellTextAll_getText address buffer limit timeout
  have hbuffer : u.2 = (c.textSink address buffer limit timeout).buffer ++ buffer.drop room :=
    c.getText_snd address buffer limit timeout
  generalize c.textSink address buffer limit timeout = s at hresult htold hbuffer hfills
  have hroom : (buffer.take room).length = room := List.length_take_of_le (Nat.min_le_right _ _)
  have hsize : s.buffer.length = room := hfills.holds.size.trans hroom
  have hlength : s.length = min room content.length := by rw [hfills.holds.length_eq, hroom]
  have hfront : u.2 = content.take room ++ buffer.drop (min room content.length) :=
    hbuffer.trans (hfills.front_eq (Nat.min_le_right _ _))
  have hok : ∀ n, u.1.result = .ok n → n = s.length ∧ (c.get address timeout).result = .ok () := by
    intro n hn
    rw [hresult] at hn
    cases hget : (c.get address timeout).result with
    | error e => rw [hget] at hn; cases hn
    | ok => rw [hget] at hn; exact ⟨(Except.ok.inj hn).symm, rfl⟩
  refine ⟨before, last, content, whole, htrail, hevents, hdecodes, hfront, ?_, ?_, ?_, ?_, ?_⟩
  · rw [hbuffer, List.length_append, hsize, List.length_drop]
    omega
  · rw [hbuffer, ← hsize, List.drop_left]
  · rw [hwhole]
    refine ⟨fun hget => ⟨s.length, ?_⟩, fun ⟨n, hn⟩ => (hok n hn).2⟩
    rw [hresult, hget]
    rfl
  · intro n hn
    obtain ⟨hnumber, hget⟩ := hok n hn
    obtain ⟨r, hends, hcontent⟩ := endsOn_of_ok hget
    refine ⟨hnumber.trans hlength, ?_, r, hends, hcontent.symm.trans hwritten⟩
    have htake : (content.take room).length = n := by
      rw [List.length_take, hnumber, hlength]
    rw [hfront, ← htake, List.take_left, List.length_take, ← List.take_eq_take_min]
  · refine ⟨s.contentType, htold.trans ?_⟩
    rw [TextSink.inFrontOf, ← hbuffer, hsize, hlength]

end Client

end DeviceHttp
