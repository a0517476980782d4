import DeviceHttp.Json.Error
import DeviceHttp.Json.Value

/-!
# A request body that is known in advance

A text, some bytes or a JSON value: the whole body is there before the first byte is read, so its
length is known and it can be read again from its start.
-/

namespace DeviceHttp

/-- A body that is held whole. -/
structure FixedBody where
  contentType : String
  content : Bytes
  /-- The part that is still to be read. -/
  rest : Bytes
  deriving DecidableEq, Repr

namespace FixedBody

/-- Bytes that are sent as plain text. -/
def ofBytes (content : Bytes) : FixedBody :=
  ⟨"text/plain", content, content⟩

/-- A text. -/
def ofText (s : String) : FixedBody :=
  ofBytes (Utf8.ofString s)

/-- A JSON value, if its written form fits in so many bytes. -/
def ofJson (capacity : Nat) (value : Json.Value) : Except Json.WriteError FixedBody :=
  let content := value.write
  if content.length ≤ capacity then .ok ⟨Json.contentType, content, content⟩
  else .error .bufferFull

/-- The same body from its start. -/
def reset (b : FixedBody) : FixedBody :=
  { b with rest := b.content }

/-- Read at most `room` bytes. -/
def read (room : Nat) (b : FixedBody) : Bytes × FixedBody :=
  (b.rest.take room, { b with rest := b.rest.drop room })

end FixedBody

end DeviceHttp
