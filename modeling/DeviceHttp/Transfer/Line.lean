import DeviceHttp.Text.Cut
import DeviceHttp.Text.Decimal
import DeviceHttp.Text.Hex
import DeviceHttp.Text.Utf8
import DeviceHttp.Transfer.Error
import DeviceHttp.Transfer.Window

/-!
# The lines that open a response and a chunk

A response opens with its status line, `HTTP/<digits>.<digits> <code>[ <reason>]`, with one or more
spaces in front of the code. The reason is not looked at. A chunk is a line with its size in
hexadecimal, so many bytes, and the end of a line. What follows the size on its line, behind a
semicolon or a blank, is ignored.
-/

namespace DeviceHttp.StatusLine

/-- Every code is below this one. -/
def codeLimit : Nat := UInt16.size

/-- The name of the protocol, in front of its version. -/
def protocolName : List Char := "HTTP/".toList

/-- A version: two numbers with a point between them. -/
def isVersion (cs : List Char) : Bool :=
  match Cut.around ['.'] cs with
  | none => false
  | some (major, minor) => Decimal.isNumeral major && Decimal.isNumeral minor

/-- The code at the front of a text; nothing, or a space and anything, may follow it. -/
def readCode (cs : List Char) : Option Nat :=
  match (Decimal.span cs).2 with
  | [] => Decimal.digits? codeLimit (Decimal.span cs).1
  | ' ' :: _ => Decimal.digits? codeLimit (Decimal.span cs).1
  | _ => none

/-- The code of a status line, if the characters spell one. -/
def read? (cs : List Char) : Option Nat :=
  if protocolName.isPrefixOf cs then
    match Cut.around [' '] (cs.drop protocolName.length) with
    | none => none
    | some (version, rest) =>
      if isVersion version then readCode (rest.dropWhile (· = ' ')) else none
  else none

/-- The code of a status line. -/
def parse (line : Bytes) : Except TransferError Nat :=
  match (Utf8.decode? line).bind read? with
  | some code => .ok code
  | none => .error .protocol

end DeviceHttp.StatusLine

namespace DeviceHttp.Chunk

/-- Every size is below this one. -/
def sizeLimit : Nat := UInt64.size

/-- Whether a byte may follow the size on its line: a semicolon, a space or a tab. -/
def endsSize (b : UInt8) : Bool :=
  b = 59 || b = 32 || b = 9

/-- The size on the first line of a chunk. -/
def parseSize (line : Bytes) : Except TransferError Nat :=
  let digits := line.takeWhile Hex.isDigit
  let after := line.dropWhile Hex.isDigit
  if digits ≠ [] ∧ after.head?.all endsSize ∧ Hex.value digits < sizeLimit then
    .ok (Hex.value digits)
  else .error .protocol

/-- The first line of a chunk of a size. -/
def sizeLine (size : Nat) : Bytes :=
  Hex.render size ++ Window.crlf

end DeviceHttp.Chunk
