import DeviceHttp.Text.Decimal
import DeviceHttp.Text.Quoted
import DeviceHttp.Text.Utf8

/-!
# A request body that is produced on the way

A producer is asked for bytes until it gives none. It may claim more bytes than the buffer it was
given holds; such a claim is cut down to the buffer (`StreamBody.length_read_le`). A stream cannot be
read again: what was taken stays taken.
-/

namespace DeviceHttp

/-- A producer that gives its pieces one after the other. -/
structure Producer where
  pieces : List Bytes
  /-- A boastful producer fills its buffer with `#` and claims so many bytes more than it holds. -/
  boast : Option Nat := none
  deriving DecidableEq, Repr

namespace Producer

/-- The part of the next piece that fits in `room` bytes. -/
def given (room : Nat) (p : Producer) : Bytes :=
  (p.pieces.headD []).take room

/-- The producer after a call; the part of the piece that did not fit comes next. -/
def advance (room : Nat) (p : Producer) : Producer :=
  match p.pieces with
  | [] => p
  | piece :: later =>
    { p with pieces := if piece.drop room = [] then later else piece.drop room :: later }

/-- What a call leaves in a buffer of `room` bytes, and how many of them it claims. -/
def call (room : Nat) (p : Producer) : Bytes × Nat :=
  match p.boast with
  | none => (p.given room, (p.given room).length)
  | some extra =>
    if p.given room = [] then ([], 0)
    else (p.given room ++ List.replicate (room - (p.given room).length) 35, room + extra)

/-- How many bytes the producer still holds. -/
def bytesLeft (p : Producer) : Nat :=
  p.pieces.flatten.length

theorem bytesLeft_advance (room : Nat) (p : Producer) :
    (p.given room).length + (p.advance room).bytesLeft = p.bytesLeft := by
  unfold given advance bytesLeft
  cases hp : p.pieces with
  | nil => simp [hp]
  | cons piece later =>
    simp only [List.headD_cons, List.length_take, List.flatten_cons, List.length_append]
    split
    · next h =>
      have := List.drop_eq_nil_iff.1 h
      omega
    · simp only [List.flatten_cons, List.length_append, List.length_drop]
      omega

end Producer

/-- A body that is produced on the way; without a length it is sent in chunks. -/
structure StreamBody where
  producer : Producer
  length : Option Nat := none
  contentType : Option String := none
  deriving DecidableEq, Repr

namespace StreamBody

/-- Read at most `room` bytes. -/
def read (room : Nat) (b : StreamBody) : Bytes × StreamBody :=
  ((b.producer.call room).1.take (min (b.producer.call room).2 room),
    { b with producer := b.producer.advance room })

/-- How a maintainer sees the body. -/
def describe (b : StreamBody) : String :=
  "StreamSource \x7b len: " ++ Quoted.option Decimal.text b.length
    ++ ", content_type: " ++ Quoted.option Quoted.text b.contentType ++ ", .. \x7d"

/-- No read gives more than there is room for. -/
theorem length_read_le (room : Nat) (b : StreamBody) : (b.read room).1.length ≤ room := by
  simp only [read, List.length_take]
  omega

/-- A read that gives something takes something from the producer. -/
theorem bytesLeft_read_lt (room : Nat) (b : StreamBody) (h : (b.read room).1 ≠ []) :
    (b.read room).2.producer.bytesLeft < b.producer.bytesLeft := by
  have hgiven : b.producer.given room ≠ [] := by
    intro hnil
    apply h
    unfold read Producer.call
    split <;> simp [hnil]
  have hpos := List.length_pos_iff.2 hgiven
  have := b.producer.bytesLeft_advance room
  simp only [read]
  omega

end StreamBody

end DeviceHttp
