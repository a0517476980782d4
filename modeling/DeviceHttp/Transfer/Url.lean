import DeviceHttp.Text.Characters
import DeviceHttp.Text.Cut
import DeviceHttp.Text.Utf8
import DeviceHttp.Transfer.Error

/-!
# Absolute URLs

`scheme://host[:port][/path][?query][#fragment]`, every part within a fixed capacity. A part that
does not fit makes the whole text malformed; nothing is ever cut short. The fragment is dropped and
the query stays with the path, which is what a request line needs.
-/

namespace DeviceHttp

/-- An absolute URL, split into what a connection needs and what a request line needs. -/
structure Url where
  scheme : String
  host : String
  port : UInt16
  /-- The request target: path and query, always with a slash in front. -/
  path : String
  deriving DecidableEq, Repr

namespace Url

/-- The longest scheme, in bytes. -/
def schemeCapacity : Nat := 8

/-- The longest host, in bytes. -/
def hostCapacity : Nat := 64

/-- The longest path with its query, in bytes. -/
def pathCapacity : Nat := 256

/-- The longest text of a URL that is kept or built, in bytes. -/
def textCapacity : Nat := 256

/-- The port of a URL that names none. -/
def defaultPort : UInt16 := 80

/-- A port is written in digits alone; port zero stands for the default. -/
def readPort (cs : List Char) : Option UInt16 :=
  (Decimal.digits? 65536 cs).map fun n => if n = 0 then defaultPort else UInt16.ofNat n

/-- Host and port of an authority, which is cut at its first colon. -/
def readAuthority (cs : List Char) : Option (List Char × UInt16) :=
  match Cut.around [':'] cs with
  | none => some (cs, defaultPort)
  | some (host, port) => (readPort port).map fun p => (host, p)

/-- Whether a character can stand in an authority. -/
def inAuthority (c : Char) : Bool :=
  c ≠ '/' && c ≠ '?'

/-- A request target starts with a slash, which is put in front where it is missing. -/
def rooted : List Char → List Char
  | '/' :: cs => '/' :: cs
  | cs => '/' :: cs

/-- A URL of these parts, if each one fits. -/
def ofParts? (scheme host : List Char) (port : UInt16) (path : List Char) : Option Url :=
  let url : Url := ⟨String.ofList scheme, String.ofList host, port, String.ofList path⟩
  if host ≠ [] && Utf8.fits schemeCapacity url.scheme && Utf8.fits hostCapacity url.host
      && Utf8.fits pathCapacity url.path then
    some url
  else
    none

/-- The parts of a list of characters, if it spells a URL. -/
def read? (cs : List Char) : Option Url :=
  (Cut.around [':', '/', '/'] cs).bind fun (scheme, rest) =>
  let rest := rest.takeWhile (· ≠ '#')
  (readAuthority (rest.takeWhile inAuthority)).bind fun (host, port) =>
  ofParts? scheme host port (rooted (rest.dropWhile inAuthority))

/-- Read an absolute URL. -/
def parse (text : String) : Except TransferError Url :=
  match read? text.toList with
  | some url => .ok url
  | none => .error .malformedUrl

/-- The text of a URL; the port is left out where it is the default. -/
def render (url : Url) : String :=
  url.scheme ++ "://" ++ url.host
    ++ (if url.port = defaultPort then "" else ":" ++ Decimal.text url.port.toNat) ++ url.path

/-- Whether this client can open the URL; the case of the scheme is ignored. -/
def isHttp (url : Url) : Bool :=
  LetterCase.same url.scheme "http"

/-- Whatever is wrong with an address, it is reported as malformed. -/
theorem error_of_parse {address : String} {e : TransferError}
    (h : parse address = .error e) : e = .malformedUrl := by
  unfold parse at h
  split at h
  · cases h
  · exact (Except.error.inj h).symm

end Url

end DeviceHttp
