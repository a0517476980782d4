import DeviceHttp.Text.Utf8

/-!
# File systems

Named files that are written whole: a file is created empty and grows at its end. A call may fail,
and what it leaves behind then is part of its answer, so every call is a function of the file
system's state that gives a result and the next state. A name that can be stored names a file of one
flat directory: it is not empty, holds no path separator, is neither of the two names that stand for
directories, and is not too long.
-/

namespace DeviceHttp

/-- The causes for which a file system or a block device refuses a call. -/
inductive StorageError
  /-- An address past the end of the device. -/
  | outOfBounds
  | writeFailed
  | readFailed
  | eraseFailed
  | notInitialized
  /-- No file of this name. -/
  | notFound
  /-- The file, or the table of files, has no room left. -/
  | noSpace
  /-- A name that cannot be stored. -/
  | invalidName
  deriving DecidableEq, Repr

/-- What a user is told about a refused call. -/
def StorageError.message : StorageError → String
  | outOfBounds => "out of bounds"
  | writeFailed => "write failed"
  | readFailed => "read failed"
  | eraseFailed => "erase failed"
  | notInitialized => "not initialized"
  | notFound => "file not found"
  | noSpace => "no space left"
  | invalidName => "invalid file name"

namespace FileName

/-- The longest file name, in bytes. -/
def capacity : Nat := 32

/-- Whether a name can be stored. -/
def isValid (name : String) : Bool :=
  name ≠ "" && name ≠ "." && name ≠ ".." && !name.toList.contains '/' && !name.toList.contains '\\'
    && Utf8.fits capacity name

/-- The name itself, if it can be stored. -/
def check (name : String) : Except StorageError String :=
  if isValid name then .ok name else .error .invalidName

end FileName

/-- A call on files of type `φ`. -/
abbrev FileAction (φ α : Type) := EStateM StorageError φ α

/-- Something that keeps named files. -/
class FileSystem (φ : Type) where
  /-- Make an empty file; a file of this name loses its content. -/
  create : String → FileAction φ Unit
  /-- Add bytes to the end of a file. -/
  append : String → Bytes → FileAction φ Unit
  /-- The bytes of a file from an offset on, at most so many; none at its end. -/
  read : (name : String) → (offset room : Nat) → FileAction φ Bytes
  /-- The length of a file, in a word of 32 bits. -/
  size : String → FileAction φ Nat
  /-- Delete a file. -/
  remove : String → FileAction φ Unit
  /-- The names of all files. -/
  list : FileAction φ (List String)
  /-- How many bytes there are in a file. -/
  length : String → φ → Nat
  /-- A file ends: what a read gives is in the file behind the offset, and the file is no longer for
  it. So a loop that reads on until there is nothing more comes to an end. -/
  read_within {name : String} {offset room : Nat} {files later : φ} {bytes : Bytes} :
    read name offset room files = .ok bytes later →
      bytes.length ≤ length name files - offset ∧ length name later ≤ length name files

namespace FileSystem

/-- The most names that a listing holds. -/
def maxListed : Nat := 16

/-- Whether there is a file of this name: it has a size. -/
def contains {φ : Type} [FileSystem φ] (name : String) (files : φ) : Bool × φ :=
  match size name files with
  | .ok _ files => (true, files)
  | .error _ files => (false, files)

end FileSystem

end DeviceHttp
