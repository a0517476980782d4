import DeviceHttp.Transfer.Exchange
import DeviceHttp.Transfer.Line
import DeviceHttp.Transfer.Url

/-!
# Requests

The head of a request is one text (`RequestHead.text`). It is sent in pieces of the size of the
working buffer, and so is the body: as it comes when its length is announced, else in chunks. The
caller may add headers, as many as fit in their places (`Header.list`).
-/

namespace DeviceHttp

/-! ## Headers that the caller chose -/

/-- A request header that the caller chose; it is sent as it stands. -/
structure Header where
  name : String
  value : String
  deriving DecidableEq, Repr

namespace Header

/-- The longest name, in bytes. -/
def nameCapacity : Nat := 64

/-- The longest value, in bytes. -/
def valueCapacity : Nat := 128

/-- The most headers that one request carries. -/
def maxCount : Nat := 8

/-- A header of this name and value, if both fit. -/
def of (name value : String) : Except TransferError Header :=
  if Utf8.fits nameCapacity name && Utf8.fits valueCapacity value then .ok ⟨name, value⟩
  else .error .overflow

/-- The headers of these names and values, if each one fits and there are not too many. -/
def list (pairs : List (String × String)) : Except TransferError (List Header) :=
  if pairs.length ≤ maxCount then pairs.mapM fun (name, value) => of name value
  else .error .overflow

end Header

/-! ## The head of a request -/

/-- What a request asks for. -/
inductive Method
  | get
  | post
  | put
  | delete
  | head
  deriving DecidableEq, Repr

/-- A method as it stands on the request line. -/
def Method.text : Method → String
  | get => "GET"
  | post => "POST"
  | put => "PUT"
  | delete => "DELETE"
  | head => "HEAD"

/-- Everything that comes before the body of a request. -/
structure RequestHead where
  method : Method
  url : Url
  /-- The token of the user's credentials. -/
  authorization : Option String
  headers : List Header
  /-- Framing and type of the body, if there is one. -/
  body : Option (Framing × Option String)
  deriving DecidableEq, Repr

namespace RequestHead

/-- A header line with its end. -/
def line (name value : String) : String :=
  name ++ ": " ++ value ++ "\r\n"

/-- The lines about a body. -/
def bodyLines (framing : Framing) (contentType : Option String) : String :=
  (match framing with
    | .chunked => line "Transfer-Encoding" "chunked"
    | .length n => line "Content-Length" (Decimal.text n))
  ++ (match contentType with
    | none => ""
    | some value => line "Content-Type" value)

/-- The lines behind the one that names the host. -/
def tail (h : RequestHead) : String :=
  line "Connection" "keep-alive"
    ++ (match h.authorization with
      | none => ""
      | some token => line "Authorization" ("Basic " ++ token))
    ++ String.join (h.headers.map fun header => line header.name header.value)
    ++ (match h.body with
      | none => ""
      | some (framing, contentType) => bodyLines framing contentType)
    ++ "\r\n"

/-- The text of a head, with the empty line at its end. -/
def text (h : RequestHead) : String :=
  h.method.text ++ " " ++ h.url.path ++ " HTTP/1.1\r\n"
    ++ line "Host" (h.url.host ++ ":" ++ Decimal.text h.url.port.toNat) ++ h.tail

end RequestHead

/-- A byte string in pieces of `size` bytes, the last one possibly shorter. -/
def pieces (size : Nat) (bytes : Bytes) : List Bytes :=
  if _h : size = 0 ∨ bytes = [] then []
  else bytes.take size :: pieces size (bytes.drop size)
termination_by bytes.length
decreasing_by
  have : 0 < bytes.length := List.length_pos_iff.2 fun h => _h (.inr h)
  have : size ≠ 0 := fun h => _h (.inl h)
  simp only [List.length_drop]
  omega

/-- The pieces of a byte string are the byte string. -/
theorem flatten_pieces {size : Nat} (hsize : 0 < size) (bytes : Bytes) :
    (pieces size bytes).flatten = bytes := by
  fun_induction pieces size bytes with
  | case1 bytes h =>
    rcases h with h | h
    · omega
    · simp [h]
  | case2 bytes h ih => simp [ih]

namespace Exchange

/-- Send the head of a request. -/
def sendHead (head : RequestHead) (x : Exchange) : Outcome Unit :=
  x.sendAll (pieces x.window.capacity (Utf8.ofString head.text))

/-- Send at most so many bytes of a body, read in pieces of the size of the working buffer. -/
def sendLength (remaining : Nat) (source : Source) (x : Exchange) : Outcome Unit :=
  if _h0 : remaining = 0 then .ok () x
  else
    let read := source.read (min remaining x.window.capacity)
    let y := { x with source := some read.2 }
    if _h : read.1 = [] then .ok () y
    else
      match y.send read.1 with
      | .error e z => .error e z
      | .ok _ z => sendLength (remaining - read.1.length) read.2 z
termination_by remaining
decreasing_by
  have : 0 < (source.read (min remaining x.window.capacity)).1.length := List.length_pos_iff.2 _h
  omega

/-- Send a body in chunks, each read in one piece of the size of the working buffer; a chunk of no
bytes ends it. -/
def sendChunks (source : Source) (x : Exchange) : Outcome Unit :=
  let read := source.read x.window.capacity
  let y := { x with source := some read.2 }
  match y.send (Chunk.sizeLine read.1.length) with
  | .error e z => .error e z
  | .ok _ z =>
    if _h : read.1 = [] then z.send Window.crlf
    else
      match z.sendAll [read.1, Window.crlf] with
      | .error e w => .error e w
      | .ok _ w => sendChunks read.2 w
termination_by source.bytesLeft
decreasing_by exact source.bytesLeft_read_lt _ _h

/-- Send the body of a request, if there is one. -/
def sendBody (x : Exchange) : Outcome Unit :=
  match x.source with
  | none => .ok () x
  | some source =>
    match source.framing with
    | .chunked => x.sendChunks source
    | .length n => x.sendLength n source

end Exchange

end DeviceHttp
