import DeviceHttp.Body.Fixed
import DeviceHttp.Body.Stream
import DeviceHttp.Form.Body

/-!
# Request bodies

A source is where the body of a request comes from. It says how the body is framed and of what type
it is, and it gives the bytes in reads of bounded size; a read of nothing ends the body.
-/

namespace DeviceHttp

/-- How the end of a body is found. -/
inductive Framing
  /-- The body has exactly so many bytes. -/
  | length (n : Nat)
  /-- The body comes in chunks, and an empty chunk ends it. -/
  | chunked
  deriving DecidableEq, Repr

/-- Where the body of a request comes from. -/
inductive Source
  | fixed (body : FixedBody)
  | form (body : FormBody)
  | stream (body : StreamBody)
  deriving DecidableEq, Repr

namespace Source

/-- The announced length of the body; a stream without a length announces none. -/
def length : Source → Nat
  | fixed body => body.content.length
  | form body => body.length
  | stream body => body.length.getD 0

/-- Whether the body is sent in chunks. -/
def isChunked : Source → Bool
  | stream body => body.length.isNone
  | _ => false

/-- How the body is framed. -/
def framing (s : Source) : Framing :=
  if s.isChunked then .chunked else .length s.length

/-- The type of the body, if it has one. -/
def contentType : Source → Option String
  | fixed body => some body.contentType
  | form _ => some Form.contentType
  | stream body => body.contentType

/-- The same body from its start; a stream goes on from where it is. -/
def reset : Source → Source
  | fixed body => fixed body.reset
  | form body => form body.reset
  | stream body => stream body

/-- Read at most `room` bytes. -/
def read (room : Nat) : Source → Bytes × Source
  | fixed body => ((body.read room).1, fixed (body.read room).2)
  | form body => ((body.read room).1, form (body.read room).2)
  | stream body => ((body.read room).1, stream (body.read room).2)

/-- How many bytes are left to take; every read that gives something lowers it. -/
def bytesLeft : Source → Nat
  | fixed body => body.rest.length
  | form body => body.remaining.length
  | stream body => body.producer.bytesLeft

theorem length_read_le (room : Nat) (s : Source) : (s.read room).1.length ≤ room := by
  cases s with
  | fixed body => simp only [read, FixedBody.read, List.length_take]; omega
  | form body => simp only [read, FormBody.read_fst, List.length_take]; omega
  | stream body => exact body.length_read_le room

/-- A read that gives something leaves less to take. -/
theorem bytesLeft_read_lt (room : Nat) (s : Source) (h : (s.read room).1 ≠ []) :
    (s.read room).2.bytesLeft < s.bytesLeft := by
  cases s with
  | fixed body =>
    have := List.length_pos_iff.2 h
    simp only [read, FixedBody.read, bytesLeft, List.length_take, List.length_drop] at this ⊢
    omega
  | form body =>
    have := List.length_pos_iff.2 h
    simp only [read, FormBody.read_fst, FormBody.remaining_read, bytesLeft, List.length_take,
      List.length_drop] at this ⊢
    omega
  | stream body => exact body.bytesLeft_read_lt room h

end Source

end DeviceHttp
