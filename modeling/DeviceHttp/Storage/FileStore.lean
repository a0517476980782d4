import DeviceHttp.Storage.Directory
import DeviceHttp.Storage.MemoryStore

/-!
# Files in memory or in a directory
-/

namespace DeviceHttp

/-- A file system of either kind. -/
inductive FileStore
  | memory (store : MemoryStore)
  | directory (directory : Directory)
  deriving DecidableEq, Repr

namespace FileStore

/-- Carry a call out on the store that is there. -/
def run {α : Type} (onMemory : FileAction MemoryStore α) (onDirectory : FileAction Directory α) :
    FileAction FileStore α
  | memory store =>
    match onMemory store with
    | .ok a store => .ok a (memory store)
    | .error e store => .error e (memory store)
  | directory d =>
    match onDirectory d with
    | .ok a d => .ok a (directory d)
    | .error e d => .error e (directory d)

instance : FileSystem FileStore where
  create name := run (FileSystem.create name) (FileSystem.create name)
  append name bytes := run (FileSystem.append name bytes) (FileSystem.append name bytes)
  read name offset room := run (FileSystem.read name offset room) (FileSystem.read name offset room)
  size name := run (FileSystem.size name) (FileSystem.size name)
  remove name := run (FileSystem.remove name) (FileSystem.remove name)
  list := run FileSystem.list FileSystem.list
  length name
    | memory store => FileSystem.length name store
    | directory d => FileSystem.length name d
  read_within {name offset room store later bytes} h := by
    cases store with
    | memory store =>
      unfold run at h
      dsimp only at h
      split at h
      · next hread =>
        cases h
        exact FileSystem.read_within hread
      · cases h
    | directory d =>
      unfold run at h
      dsimp only at h
      split at h
      · next hread =>
        cases h
        exact FileSystem.read_within hread
      · cases h

end FileStore

end DeviceHttp
