import DeviceHttp.Body.Sink

/-!
# Collecting a body in a buffer

The body is copied into a buffer of the caller's; what does not fit is dropped. The buffer behind
the body is never touched (`TextSink.drop_write`).
-/

namespace DeviceHttp

/-- A buffer and how much of it the body fills. -/
structure TextSink where
  buffer : Bytes
  length : Nat := 0
  contentType : String := ""
  deriving DecidableEq, Repr

namespace TextSink

/-- The part of the body that was kept. -/
def bytes (s : TextSink) : Bytes :=
  s.buffer.take s.length

/-- The kept part as a text, if it is one. -/
def text? (s : TextSink) : Option String :=
  Utf8.toString? s.bytes

/-- Whether the buffer has no room left. -/
def isFull (s : TextSink) : Bool :=
  s.length = s.buffer.length

/-- Copy the front of a slice behind what is there. -/
def write (slice : Bytes) (s : TextSink) : Nat × TextSink :=
  let kept := slice.take (s.buffer.length - s.length)
  (kept.length,
    { s with
      buffer := s.buffer.take s.length ++ kept ++ s.buffer.drop (s.length + kept.length)
      length := s.length + kept.length })

instance : Sink TextSink where
  reset s := { s with length := 0, contentType := "" }
  setLength _ s := s
  setChunked _ s := s
  setContentType value s := { s with contentType := (ContentType.kept? value).getD "" }
  write := write

/-- A write keeps the size of the buffer. -/
theorem length_buffer_write (slice : Bytes) (s : TextSink) (h : s.length ≤ s.buffer.length) :
    (s.write slice).2.buffer.length = s.buffer.length := by
  simp only [write, List.length_append, List.length_take, List.length_drop]
  omega

/-- A write leaves the buffer behind the body as it was. -/
theorem drop_write (slice : Bytes) (s : TextSink) (h : s.length ≤ s.buffer.length) :
    (s.write slice).2.buffer.drop (s.write slice).2.length
      = s.buffer.drop (s.write slice).2.length := by
  have hlen : (s.buffer.take s.length ++ slice.take (s.buffer.length - s.length)).length
      = s.length + (slice.take (s.buffer.length - s.length)).length := by
    simp only [List.length_append, List.length_take]
    omega
  simp only [write]
  rw [← hlen, List.drop_left]

end TextSink

end DeviceHttp
