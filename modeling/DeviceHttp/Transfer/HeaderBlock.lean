import DeviceHttp.Body.Source
import DeviceHttp.Body.Sink
import DeviceHttp.Text.Characters
import DeviceHttp.Text.Cut
import DeviceHttp.Transfer.Url

/-!
# The headers of a response

Of a block of headers only four fields count: two that frame the body, its type, and the location of
a redirect. Their names are compared with case. `HeaderBlock.addLine` adds one line to what is known,
so a block of lines is read by a fold.
-/

namespace DeviceHttp

/-- Name and value of a header line, which is cut at its first colon; spaces and tabs in front of the
value are dropped. -/
def HeaderLine.read? (line : Bytes) : Option (List Char × List Char) :=
  match Utf8.decode? line with
  | none => none
  | some cs =>
    match Cut.around [':'] cs with
    | none => none
    | some (name, value) =>
      if name = [] then none else some (name, value.dropWhile fun c => c = ' ' || c = '\t')

/-- What the lines of a block of headers have said so far. -/
structure HeaderBlock where
  contentLength : Option Nat := none
  chunked : Bool := false
  contentType : Option String := none
  location : Option String := none
  deriving DecidableEq, Repr

namespace HeaderBlock

/-- Every length is below this one. -/
def lengthLimit : Nat := UInt64.size

/-- A block after one more field. The last line of a name counts, except that a body once said to be
chunked stays so. A type that is too long is as good as none; a location that is too long is an
error. -/
def addField (name value : String) (block : HeaderBlock) : Except TransferError HeaderBlock :=
  if name = "Content-Length" then
    match Decimal.number? lengthLimit (Blank.trimEnd value.toList) with
    | some n => .ok { block with contentLength := some n }
    | none => .error .protocol
  else if name = "Transfer-Encoding" then
    .ok { block with chunked := block.chunked || value = "chunked" || value = "Chunked" }
  else if name = "Content-Type" then
    .ok { block with contentType := ContentType.kept? value }
  else if name = "Location" then
    if Utf8.fits Url.textCapacity value then .ok { block with location := some value }
    else .error .protocol
  else .ok block

/-- A block after one more line. -/
def addLine (block : HeaderBlock) (line : Bytes) : Except TransferError HeaderBlock :=
  match HeaderLine.read? line with
  | none => .error .protocol
  | some (name, value) => block.addField (String.ofList name) (String.ofList value)

/-- How the body is framed; without a word on it there is none. -/
def framing (block : HeaderBlock) : Framing :=
  if block.chunked then .chunked else .length (block.contentLength.getD 0)

/-- What a sink is told about the body before it comes. -/
def announcement (block : HeaderBlock) : List Delivery :=
  (match block.framing with
    | .chunked => .setChunked true
    | .length n => .setLength n)
  :: (block.contentType.map Delivery.setContentType).toList

end HeaderBlock

end DeviceHttp
