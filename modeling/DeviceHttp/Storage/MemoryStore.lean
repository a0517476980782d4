import DeviceHttp.Storage.FileSystem

/-!
# Files in memory

A table of at most so many files of at most so many bytes each. A file that is removed leaves its
place in the table to the last one. Only `create` looks at the form of a name, because no other call
can bring a new name in.
-/

namespace DeviceHttp

/-- Files that are kept in memory. -/
structure MemoryStore where
  maxFiles : Nat
  maxBytes : Nat
  /-- Names with contents, in the order of the table. -/
  files : List (String × Bytes) := []
  deriving DecidableEq, Repr

namespace MemoryStore

/-- The content of a file. -/
def contents? (name : String) (m : MemoryStore) : Option Bytes :=
  m.files.lookup name

/-- The table with another content for a name. -/
def setContents (name : String) (content : Bytes) (m : MemoryStore) : MemoryStore :=
  { m with files := m.files.map fun file => if file.1 = name then (name, content) else file }

/-- A table without a file; the last file takes its place. -/
def swapRemove (name : String) : List (String × Bytes) → List (String × Bytes)
  | [] => []
  | file :: files =>
    if file.1 = name then
      match files.getLast? with
      | none => []
      | some last => last :: files.dropLast
    else file :: swapRemove name files

/-- Make an empty file. -/
def create (name : String) : FileAction MemoryStore Unit := fun m =>
  if FileName.isValid name = false then .error .invalidName m
  else if (m.contents? name).isSome then .ok () (m.setContents name [])
  else if m.files.length < m.maxFiles then .ok () { m with files := m.files ++ [(name, [])] }
  else .error .noSpace m

/-- Add bytes to a file, all of them or none. -/
def append (name : String) (bytes : Bytes) : FileAction MemoryStore Unit := fun m =>
  match m.contents? name with
  | none => .error .notFound m
  | some content =>
    if content.length + bytes.length ≤ m.maxBytes then .ok () (m.setContents name (content ++ bytes))
    else .error .noSpace m

/-- The bytes of a file from an offset on. -/
def read (name : String) (offset room : Nat) : FileAction MemoryStore Bytes := fun m =>
  match m.contents? name with
  | none => .error .notFound m
  | some content => .ok ((content.drop offset).take room) m

/-- The length of a file, as a word of 32 bits. -/
def size (name : String) : FileAction MemoryStore Nat := fun m =>
  match m.contents? name with
  | none => .error .notFound m
  | some content => .ok (content.length % UInt32.size) m

/-- Delete a file. -/
def remove (name : String) : FileAction MemoryStore Unit := fun m =>
  if (m.contents? name).isSome then .ok () { m with files := swapRemove name m.files }
  else .error .notFound m

/-- The names of all files, unless there are too many. -/
def list : FileAction MemoryStore (List String) := fun m =>
  if m.files.length ≤ FileSystem.maxListed then .ok (m.files.map Prod.fst) m
  else .error .noSpace m

instance : FileSystem MemoryStore where
  create := create
  append := append
  read := read
  size := size
  remove := remove
  list := list
  length name m := ((m.contents? name).getD []).length
  read_within {name offset room m later bytes} h := by
    unfold read at h
    split at h
    · cases h
    · next content hcontent =>
      cases h
      simp only [hcontent, Option.getD_some, List.length_take, List.length_drop]
      omega

end MemoryStore

end DeviceHttp
