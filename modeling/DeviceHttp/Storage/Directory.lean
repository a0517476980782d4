import DeviceHttp.Storage.FileSystem

/-!
# Files in a directory of a host

The host keeps a map from names to files and folders, listed here in the order of the names. The
directory itself may be missing, or something else may stand in its place. A host refuses a name that
holds a NUL character before it looks at anything.
-/

namespace DeviceHttp

/-- What a host keeps under a name. -/
inductive Node
  | file (content : Bytes)
  | folder
  deriving DecidableEq, Repr

/-- A directory of a host. -/
inductive Directory
  /-- There is nothing of this path. -/
  | missing
  /-- The path leads to something that is no directory. -/
  | blocked
  /-- Names with what they stand for, in the order of the names. -/
  | folder (nodes : List (String × Node))
  deriving DecidableEq, Repr

namespace Directory

/-- A directory with another node under a name. -/
def insert (name : String) (node : Node) : List (String × Node) → List (String × Node)
  | [] => [(name, node)]
  | entry :: entries =>
    if entry.1 = name then (name, node) :: entries
    else if name < entry.1 then (name, node) :: entry :: entries
    else entry :: insert name node entries

/-- The longest name of a host, in bytes. -/
def hostNameCapacity : Nat := 255

/-- Whether a host can keep something under a name. -/
def isHostName (name : String) : Bool :=
  name ≠ "" && name ≠ "." && name ≠ ".." && !name.toList.contains '/'
    && !name.toList.contains '\x00' && Utf8.fits hostNameCapacity name

/-- A directory after someone else tried to put a node into it. A host puts no folder where there is
something, and no file where there is a folder. -/
def put (name : String) (node : Node) : Directory → Directory
  | folder nodes =>
    if isHostName name then
      match nodes.lookup name, node with
      | none, _ => folder (insert name node nodes)
      | some (.file _), .file _ => folder (insert name node nodes)
      | some _, _ => folder nodes
    else folder nodes
  | other => other

/-- The nodes of a directory and what it has under a name; `refusal` is the answer to a call that
the host does not carry out for another reason than a missing file. -/
def resolve (refusal : StorageError) (name : String) :
    Directory → Except StorageError (List (String × Node) × Option Node)
  | d =>
    if FileName.isValid name = false then .error .invalidName
    else if name.toList.contains '\x00' then .error refusal
    else match d with
      | missing => .error .notFound
      | blocked => .error refusal
      | folder nodes => .ok (nodes, nodes.lookup name)

/-- Only a directory that is there has something under a name. -/
theorem of_resolve_ok {refusal : StorageError} {name : String} {d : Directory}
    {nodes : List (String × Node)} {node : Option Node}
    (h : resolve refusal name d = .ok (nodes, node)) :
    d = folder nodes ∧ nodes.lookup name = node := by
  unfold resolve at h
  split at h
  · cases h
  · split at h
    · cases h
    · cases d with
      | missing => cases h
      | blocked => cases h
      | folder others =>
        cases h
        exact ⟨rfl, rfl⟩

/-- Make an empty file. -/
def create (name : String) : FileAction Directory Unit := fun d =>
  match resolve .writeFailed name d with
  | .error e => .error e d
  | .ok (_, some .folder) => .error .writeFailed d
  | .ok (nodes, _) => .ok () (folder (insert name (.file []) nodes))

/-- Add bytes to a file. -/
def append (name : String) (bytes : Bytes) : FileAction Directory Unit := fun d =>
  match resolve .writeFailed name d with
  | .error e => .error e d
  | .ok (_, none) => .error .notFound d
  | .ok (_, some .folder) => .error .writeFailed d
  | .ok (nodes, some (.file content)) =>
    .ok () (folder (insert name (.file (content ++ bytes)) nodes))

/-- The bytes of a file from an offset on. A folder can be opened, but not read. -/
def read (name : String) (offset room : Nat) : FileAction Directory Bytes := fun d =>
  match resolve .readFailed name d with
  | .error e => .error e d
  | .ok (_, none) => .error .notFound d
  | .ok (_, some .folder) => if room = 0 then .ok [] d else .error .readFailed d
  | .ok (_, some (.file content)) => .ok ((content.drop offset).take room) d

/-- The length of a file, if a word of 32 bits holds it. -/
def size (name : String) : FileAction Directory Nat := fun d =>
  match resolve .readFailed name d with
  | .error e => .error e d
  | .ok (_, some (.file content)) =>
    if content.length < UInt32.size then .ok content.length d else .error .outOfBounds d
  | .ok _ => .error .notFound d

/-- Delete a file. -/
def remove (name : String) : FileAction Directory Unit := fun d =>
  match resolve .writeFailed name d with
  | .error e => .error e d
  | .ok (_, none) => .error .notFound d
  | .ok (_, some .folder) => .error .writeFailed d
  | .ok (nodes, some (.file _)) => .ok () (folder (nodes.filter fun entry => entry.1 ≠ name))

/-- Whether an entry is a file that a call could name. -/
def isListed : String × Node → Bool
  | (name, .file _) => FileName.isValid name
  | (_, .folder) => false

/-- The names of all files that a call could name, unless there are too many. -/
def list : FileAction Directory (List String) := fun d =>
  match d with
  | missing => .error .notFound d
  | blocked => .error .readFailed d
  | folder nodes =>
    let names := (nodes.filter isListed).map Prod.fst
    if names.length ≤ FileSystem.maxListed then .ok names d else .error .noSpace d

/-- How many bytes a host keeps under a name; a folder has none of its own. -/
def length (name : String) : Directory → Nat
  | folder nodes =>
    match nodes.lookup name with
    | some (.file content) => content.length
    | _ => 0
  | _ => 0

theorem read_within {name : String} {offset room : Nat} {d later : Directory} {bytes : Bytes}
    (h : read name offset room d = .ok bytes later) :
    bytes.length ≤ d.length name - offset ∧ later.length name ≤ d.length name := by
  unfold read at h
  split at h
  · cases h
  · cases h
  · split at h
    · cases h
      exact ⟨Nat.zero_le _, Nat.le_refl _⟩
    · cases h
  · next nodes content hresolve =>
    obtain ⟨rfl, hlookup⟩ := of_resolve_ok hresolve
    cases h
    simp only [length, hlookup, List.length_take, List.length_drop]
    omega

instance : FileSystem Directory where
  create := create
  append := append
  read := read
  size := size
  remove := remove
  list := list
  length := length
  read_within := read_within

end Directory

end DeviceHttp
