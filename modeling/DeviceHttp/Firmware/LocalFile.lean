import DeviceHttp.Firmware.Manifest
import DeviceHttp.Text.Characters
import DeviceHttp.Text.Decimal

/-!
# The local files of an image

The files of an image are named after the first six characters of its name, its root: `<root>.ver`
records the installed version, and `<root>NN.bin` holds the image, `NN` being the version modulo one
hundred.
-/

namespace DeviceHttp.LocalFile

/-- How many characters of an image's name its files keep. -/
def rootLength : Nat := 6

/-- The part of an image's name that its files are named after. -/
def root (name : String) : List Char :=
  name.toList.take rootLength

/-- A file name of these characters, if it is short enough. -/
def named (cs : List Char) : Except UpdateError String :=
  if Utf8.fits FileName.capacity (String.ofList cs) then .ok (String.ofList cs)
  else .error (.storage .invalidName)

/-- The file that records the installed version. -/
def versionFile (name : String) : Except UpdateError String :=
  named (root name ++ ['.', 'v', 'e', 'r'])

/-- The file that holds the image of a version. -/
def imageFile (name : String) (version : Nat) : Except UpdateError String :=
  named (root name ++ Decimal.twoDigits (version % 100) ++ ['.', 'b', 'i', 'n'])

/-- Whether a file holds an image: its name ends in `.bin`, in any case. -/
def isImage (name : String) : Bool :=
  ['.', 'b', 'i', 'n'].isSuffixOf (LetterCase.fold name)

end DeviceHttp.LocalFile
