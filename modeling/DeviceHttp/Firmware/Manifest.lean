import DeviceHttp.Storage.FileSystem
import DeviceHttp.Text.Characters
import DeviceHttp.Text.Cut
import DeviceHttp.Text.Decimal
import DeviceHttp.Text.Utf8
import DeviceHttp.Transfer.Error

/-!
# Version manifests, and why an update fails

A manifest is one line of three decimal fields, `version,checksum,size`, with blanks around the line
and around each field ignored.
-/

namespace DeviceHttp

/-! ## Errors -/

/-- The causes for which a firmware update fails. -/
inductive UpdateError
  /-- The manifest could not be fetched. -/
  | versionFetch (cause : TransferError)
  /-- What was fetched is no manifest. -/
  | malformedManifest
  /-- The image could not be fetched. -/
  | imageFetch (cause : TransferError)
  /-- The stored image is not the one that the manifest describes. -/
  | integrity
  /-- A local file could not be used. -/
  | storage (cause : StorageError)
  /-- The new version could not be recorded. -/
  | versionWrite
  /-- The platform did not start the new image. -/
  | activation
  deriving DecidableEq, Repr

/-- What a user is told about a failed update. -/
def UpdateError.message : UpdateError → String
  | versionFetch cause => "version manifest download failed: " ++ cause.message
  | malformedManifest => "malformed version manifest"
  | imageFetch cause => "firmware download failed: " ++ cause.message
  | integrity => "firmware image failed the integrity check"
  | storage cause => "storage error: " ++ cause.message
  | versionWrite => "could not record the installed version"
  | activation => "firmware activation failed"

/-! ## Manifests -/

/-- What a server says about its latest firmware image. -/
structure Manifest where
  version : Nat
  checksum : Nat
  /-- The length of the image in bytes. -/
  size : Nat
  deriving DecidableEq, Repr

namespace Manifest

/-- The longest manifest line that is kept, in bytes. -/
def capacity : Nat := 50

/-- The numbers of a manifest are below this one. -/
def numberLimit : Nat := UInt32.size

/-- One field: a number, with blanks around it ignored. -/
def readField (cs : List Char) : Option Nat :=
  Decimal.number? numberLimit (Blank.trim cs)

/-- The manifest that a list of characters spells, if it spells one. -/
def read? (cs : List Char) : Option Manifest :=
  match Cut.fields ',' (Blank.trim cs) with
  | [version, checksum, size] =>
    (readField version).bind fun version =>
    (readField checksum).bind fun checksum =>
    (readField size).map fun size => ⟨version, checksum, size⟩
  | _ => none

/-- Read a manifest. -/
def parse (text : String) : Except UpdateError Manifest :=
  match read? text.toList with
  | some manifest => .ok manifest
  | none => .error .malformedManifest

/-- The version at the front of a recorded manifest line: its first digits, after any blanks. -/
def leadingVersion (line : Bytes) : Option Nat :=
  (Utf8.decode? line).bind fun cs =>
  Decimal.digits? numberLimit (Decimal.span (Blank.trimStart cs)).1

end Manifest

end DeviceHttp
