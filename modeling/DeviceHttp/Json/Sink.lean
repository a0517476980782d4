import DeviceHttp.Body.Sink
import DeviceHttp.Json.Reader

/-!
# Collecting a JSON body

The body is kept whole or not used at all: a body that was cut is never read, even where its front
would be a value.
-/

namespace DeviceHttp

/-- A JSON body on its way in. -/
structure JsonSink where
  /-- The longest body that is kept, in bytes. -/
  capacity : Nat
  body : Bytes := []
  /-- Whether a part of the body was dropped. -/
  truncated : Bool := false
  contentType : String := ""
  deriving DecidableEq, Repr

namespace JsonSink

/-- Keep the part of a slice that fits. -/
def write (slice : Bytes) (s : JsonSink) : Nat × JsonSink :=
  let kept := slice.take (s.capacity - s.body.length)
  (kept.length,
    { s with
      body := s.body ++ kept
      truncated := s.truncated || decide (kept.length < slice.length) })

instance : Sink JsonSink where
  reset s := { capacity := s.capacity }
  setLength _ s := s
  setChunked _ s := s
  setContentType value s := { s with contentType := (ContentType.kept? value).getD "" }
  write := write

/-- Read the body, unless a part of it was dropped. -/
def parse {α : Type} (reader : Json.Reader α) (s : JsonSink) : Except Json.ReadError α :=
  if s.truncated then .error .endInValue else Json.read reader s.body

end JsonSink

end DeviceHttp
