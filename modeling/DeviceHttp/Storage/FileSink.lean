import DeviceHttp.Body.Sink
import DeviceHttp.Storage.FileSystem

/-!
# Keeping a body in a file

The file is emptied at the start of a transaction and grows with the body. The sink closes itself
when the body is complete and when the storage fails, and a closed sink drops what it is given. A
sink and the files that it writes to travel together.
-/

namespace DeviceHttp

/-- A body on its way into a file. -/
structure FileSink where
  name : String
  length : Nat := 0
  chunked : Bool := false
  /-- How much of the body is in the file. -/
  written : Nat := 0
  isOpen : Bool := true
  /-- The storage failure that closed the sink. -/
  error : Option StorageError := none
  deriving DecidableEq, Repr

namespace FileSink

/-- A sink that takes nothing more. -/
def close (s : FileSink) : FileSink :=
  { s with isOpen := false }

/-- A sink that a storage failure closed. -/
def fail (e : StorageError) (s : FileSink) : FileSink :=
  { s with error := some e, isOpen := false }

variable {φ : Type} [FileSystem φ]

/-- A sink for a file, which is created. -/
def create (name : String) : FileAction φ FileSink := fun files =>
  match FileName.check name with
  | .error e => .error e files
  | .ok name =>
    match FileSystem.create name files with
    | .ok _ files => .ok { name } files
    | .error e files => .error e files

/-- Start over with an empty file. -/
def reset : φ × FileSink → φ × FileSink
  | (files, s) =>
    match FileSystem.create s.name files with
    | .ok _ files => (files, { name := s.name })
    | .error e files => (files, fail e { name := s.name })

/-- The announced length of the body; a body of no bytes is complete at once. -/
def setLength (n : Nat) (s : FileSink) : FileSink :=
  let s := { s with length := n }
  if s.chunked = false ∧ n = 0 then s.close else s

/-- Add a slice to the file. -/
def write (slice : Bytes) : φ × FileSink → Nat × (φ × FileSink)
  | (files, s) =>
    if s.isOpen = false then (0, files, s)
    else if slice = [] then (0, files, if s.chunked then s.close else s)
    else
      match FileSystem.append s.name slice files with
      | .error e files => (0, files, s.fail e)
      | .ok _ files =>
        let s := { s with written := s.written + slice.length }
        (slice.length, files, if s.chunked = false ∧ s.length ≤ s.written then s.close else s)

instance : Sink (φ × FileSink) where
  reset := reset
  setLength n w := (w.1, w.2.setLength n)
  setChunked on w := (w.1, { w.2 with chunked := on })
  setContentType _ w := w
  write := write

end FileSink

end DeviceHttp
