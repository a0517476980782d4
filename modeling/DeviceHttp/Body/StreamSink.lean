import DeviceHttp.Body.Sink
import DeviceHttp.Text.Decimal
import DeviceHttp.Text.Quoted

/-!
# Handing a body on

Every slice goes to a consumer as it arrives. The consumer says how much it took; a claim beyond the
slice is cut down to it. The end of a chunked body is not handed on.
-/

namespace DeviceHttp

/-- A consumer that remembers what it saw and takes whole slices, or claims the same number each
time. -/
structure Consumer where
  claim : Option Nat := none
  seen : List Bytes := []
  deriving DecidableEq, Repr

/-- A body on its way to a consumer. -/
structure StreamSink where
  consumer : Consumer
  length : Option Nat := none
  chunked : Bool := false
  received : Nat := 0
  contentType : String := ""
  deriving DecidableEq, Repr

namespace StreamSink

/-- Hand a slice on. -/
def write (slice : Bytes) (s : StreamSink) : Nat × StreamSink :=
  if slice = [] then (0, s)
  else
    let taken := min (s.consumer.claim.getD slice.length) slice.length
    (taken,
      { s with
        consumer := { s.consumer with seen := s.consumer.seen ++ [slice] }
        received := s.received + taken })

instance : Sink StreamSink where
  reset s := { consumer := s.consumer }
  setLength n s := { s with length := some n }
  setChunked on s := { s with chunked := on }
  setContentType value s := { s with contentType := (ContentType.kept? value).getD "" }
  write := write

/-- How a maintainer sees the sink. -/
def describe (s : StreamSink) : String :=
  "StreamSink \x7b len: " ++ Quoted.option Decimal.text s.length
    ++ ", chunked: " ++ (if s.chunked then "true" else "false")
    ++ ", received: " ++ Decimal.text s.received ++ ", .. \x7d"

end StreamSink

end DeviceHttp
