import DeviceHttp.Body.Sink
import DeviceHttp.Form.Encoding

/-!
# Reading a form from a body

The body is decoded byte by byte, so it may arrive cut anywhere, inside an escape too. Keys, values
and the list of pairs are bounded; whatever does not fit is dropped and noted in `overflowed`.
-/

namespace DeviceHttp

/-- Where the decoder stands in a percent escape. -/
inductive Form.Escape
  /-- Outside an escape. -/
  | none
  /-- After the percent sign. -/
  | percent
  /-- After the percent sign and the first digit. -/
  | high (digit : UInt8)
  deriving DecidableEq, Repr

/-- A form on its way in. -/
structure FormSink where
  /-- The most pairs that are kept. -/
  capacity : Nat
  pairs : List Form.Pair := []
  key : Bytes := []
  value : Bytes := []
  inValue : Bool := false
  escape : Form.Escape := .none
  length : Nat := 0
  chunked : Bool := false
  received : Nat := 0
  /-- Whether anything had to be dropped. -/
  overflowed : Bool := false
  deriving DecidableEq, Repr

namespace FormSink

/-- The longest key that is kept, in bytes. -/
def keyCapacity : Nat := 64

/-- The longest value that is kept, in bytes. -/
def valueCapacity : Nat := 128

/-- Add a decoded byte to the key or to the value. -/
def push (b : UInt8) (s : FormSink) : FormSink :=
  if s.inValue then
    if s.value.length < valueCapacity then { s with value := s.value ++ [b] }
    else { s with overflowed := true }
  else if s.key.length < keyCapacity then { s with key := s.key ++ [b] }
  else { s with overflowed := true }

/-- An escape that was not completed stands for its own bytes. -/
def flushEscape (s : FormSink) : FormSink :=
  match s.escape with
  | .none => s
  | .percent => { s.push Form.percent with escape := .none }
  | .high digit => { (s.push Form.percent).push digit with escape := .none }

/-- Keep the pair that was decoded, if it is one and there is room for it. -/
def keepPair (s : FormSink) : FormSink :=
  if s.key = [] ∧ s.value = [] then s
  else
    match Utf8.toString? s.key, Utf8.toString? s.value with
    | some key, some value =>
      if s.pairs.length < s.capacity then { s with pairs := s.pairs ++ [(key, value)] }
      else { s with overflowed := true }
    | _, _ => { s with overflowed := true }

/-- End the current pair. -/
def finish (s : FormSink) : FormSink :=
  { s.flushEscape.keepPair with key := [], value := [], inValue := false }

/-- Take a byte outside an escape. -/
def takePlain (b : UInt8) (s : FormSink) : FormSink :=
  if b = Form.percent then { s with escape := .percent }
  else if b = Form.plus then s.push Form.space
  else if b = Form.ampersand then s.finish
  else if b = Form.equals ∧ s.inValue = false then { s with inValue := true }
  else s.push b

/-- Take a byte of the body. -/
def take (s : FormSink) (b : UInt8) : FormSink :=
  match s.escape with
  | .none => s.takePlain b
  | .percent =>
    if Hex.isDigit b then { s with escape := .high b } else s.flushEscape.takePlain b
  | .high digit =>
    if Hex.isDigit b then { s with escape := .none }.push (Hex.byte digit b)
    else s.flushEscape.takePlain b

/-- Take a slice of the body; the announced length, or an empty slice of a chunked body, ends the
last pair. -/
def write (slice : Bytes) (s : FormSink) : Nat × FormSink :=
  if slice = [] then (0, if s.chunked then s.finish else s)
  else
    let s := slice.foldl take s
    let s := { s with received := s.received + slice.length }
    (slice.length, if s.chunked = false ∧ s.length ≤ s.received then s.finish else s)

instance : Sink FormSink where
  reset s := { capacity := s.capacity }
  setLength n s := { s with length := n }
  setChunked on s := { s with chunked := on }
  setContentType _ s := s
  write := write

/-- The value of the first pair with this key. -/
def get? (key : String) (s : FormSink) : Option String :=
  s.pairs.lookup key

end FormSink

end DeviceHttp
