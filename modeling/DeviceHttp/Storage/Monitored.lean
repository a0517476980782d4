import DeviceHttp.Storage.FileSystem

/-!
# A file system that is watched and disturbed

Every call is written into a journal with its outcome. Chosen calls fail without reaching the files
(`Monitored.perform_fault`), which is how the behaviour on failing storage is described.
-/

namespace DeviceHttp

/-- A call on a file system. -/
inductive FileCall
  | create (name : String)
  | append (name : String) (bytes : Bytes)
  | read (name : String) (offset room : Nat)
  | size (name : String)
  | remove (name : String)
  | list
  deriving DecidableEq, Repr

/-- The kinds of calls. -/
inductive FileCall.Kind
  | create
  | append
  | read
  | size
  | remove
  | list
  deriving DecidableEq, Repr

/-- The kind of a call. -/
def FileCall.kind : FileCall → FileCall.Kind
  | create .. => .create
  | append .. => .append
  | read .. => .read
  | size .. => .size
  | remove .. => .remove
  | list => .list

/-- A call and how it ended; a call that answers with a number, a length or a list is noted with
that number. -/
structure FileRecord where
  call : FileCall
  outcome : Except StorageError (Option Nat)

/-- A file system with a journal of its calls. -/
structure Monitored (φ : Type) where
  files : φ
  /-- The failure, if any, of the call of a kind that has so many of its kind before it. -/
  fault : FileCall.Kind → Nat → Option StorageError := fun _ _ => none
  journal : List FileRecord := []

namespace Monitored

variable {φ : Type}

/-- How many calls of a kind were made. -/
def count (kind : FileCall.Kind) (m : Monitored φ) : Nat :=
  m.journal.countP fun record => record.call.kind = kind

/-- The journal with one more record. -/
def note (call : FileCall) (outcome : Except StorageError (Option Nat)) (m : Monitored φ) :
    Monitored φ :=
  { m with journal := m.journal ++ [⟨call, outcome⟩] }

/-- Carry a call out, unless it is to fail, and note how it ended. -/
def perform {α : Type} (call : FileCall) (measure : α → Option Nat) (action : FileAction φ α) :
    FileAction (Monitored φ) α := fun m =>
  match m.fault call.kind (m.count call.kind) with
  | some e => .error e (m.note call (.error e))
  | none =>
    match action m.files with
    | .ok a files => .ok a ({ m with files }.note call (.ok (measure a)))
    | .error e files => .error e ({ m with files }.note call (.error e))

/-- A call that is to fail leaves the files alone. -/
theorem perform_fault {α : Type} {call : FileCall} {measure : α → Option Nat}
    {action : FileAction φ α} {m : Monitored φ} {e : StorageError}
    (h : m.fault call.kind (m.count call.kind) = some e) :
    perform call measure action m = .error e (m.note call (.error e)) := by
  simp [perform, h]

instance [FileSystem φ] : FileSystem (Monitored φ) where
  create name := perform (.create name) (fun _ => none) (FileSystem.create name)
  append name bytes := perform (.append name bytes) (fun _ => none) (FileSystem.append name bytes)
  read name offset room :=
    perform (.read name offset room) (fun bytes => some bytes.length)
      (FileSystem.read name offset room)
  size name := perform (.size name) some (FileSystem.size name)
  remove name := perform (.remove name) (fun _ => none) (FileSystem.remove name)
  list := perform .list (fun names => some names.length) FileSystem.list
  length name m := FileSystem.length name m.files
  read_within {name offset room m later bytes} h := by
    unfold perform at h
    split at h
    · cases h
    · split at h
      · next hread =>
        cases h
        exact FileSystem.read_within hread
      · cases h

end Monitored

end DeviceHttp
