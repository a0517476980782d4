import DeviceHttp.Firmware.Checksum
import DeviceHttp.Firmware.LocalFile
import DeviceHttp.Firmware.Manifest
import DeviceHttp.Storage.FileSink
import DeviceHttp.Transfer.Client

/-!
# The update agent

An update asks a server for its manifest, and if the server has another version than the one that is
installed, it downloads the image into a file, checks the file against the manifest, removes older
images, records the new version and, if it is told to, asks the platform to start it. An image that
was not downloaded whole, or that fails the check, is deleted. The version is recorded last, so what
is recorded was checked.
-/

namespace DeviceHttp

/-- Whether a new image is started at once. -/
inductive Reboot
  /-- The caller starts it. -/
  | manual
  /-- The platform is asked to start it. -/
  | auto
  deriving DecidableEq, Repr

/-- Where and how to look for an update. -/
structure UpdateConfig where
  /-- The URL that the resources lie under, without a slash at its end. -/
  baseUrl : String
  /-- The name of the image. -/
  name : String
  reboot : Reboot := .manual
  checksum : Checksum := .sum16
  /-- How long each wait may take, in milliseconds. -/
  timeout : Nat := 15000
  deriving DecidableEq, Repr

/-- What an agent is doing. -/
inductive Phase
  | idle
  | checking
  | downloading
  | verifying
  | installed
  deriving DecidableEq, Repr

/-- What an update comes to. -/
inductive UpdateOutcome
  /-- The server has the version that is installed. -/
  | upToDate
  /-- A version was installed; some older images may be left. -/
  | updated (version : Nat) (staleImagesKept : Bool)
  deriving DecidableEq, Repr

/-- What starts an image. -/
structure Platform where
  /-- How a reboot fails, if it does. -/
  failure : Option UpdateError := none
  /-- How often a reboot was asked for. -/
  reboots : Nat := 0
  deriving DecidableEq, Repr

/-- An agent with the files of its images. -/
structure Agent (φ : Type) where
  files : φ
  platform : Platform := {}
  phase : Phase := .idle

/-- An update on the way: the agent, the client it uses, and what was done. -/
structure Update (φ : Type) where
  agent : Agent φ
  client : Client
  events : List Event := []

namespace Update

variable {φ : Type} [FileSystem φ]

/-- A step of an update. -/
abbrev Action (φ α : Type) := EStateM UpdateError (Update φ) α

/-- Go over to another phase. -/
def enter (phase : Phase) : Action φ Unit :=
  modify fun u => { u with agent := { u.agent with phase } }

/-- Fail where a value is missing. -/
def require {α : Type} : Except UpdateError α → Action φ α
  | .ok a => pure a
  | .error e => throw e

/-- A call on the files; its failure is a result. -/
def onFiles {α : Type} (action : FileAction φ α) : Action φ (Except StorageError α) := fun u =>
  match action u.agent.files with
  | .ok a files => .ok (.ok a) { u with agent := { u.agent with files } }
  | .error e files => .ok (.error e) { u with agent := { u.agent with files } }

/-- The URL of a resource of an image. -/
def resourceUrl (config : UpdateConfig) (extension : String) : Except TransferError String :=
  let url := config.baseUrl ++ "/" ++ config.name ++ "." ++ extension
  if Utf8.fits Url.textCapacity url then .ok url else .error .malformedUrl

/-- The version that is recorded for an image, if one is. -/
def recordedVersion (name : String) (files : φ) : Option Nat × φ :=
  match LocalFile.versionFile name with
  | .error _ => (none, files)
  | .ok file =>
    match FileSystem.read file 0 Manifest.capacity files with
    | .ok line files => (Manifest.leadingVersion line, files)
    | .error _ files => (none, files)

/-- Look up the version that is installed. -/
def installedVersion (name : String) : Action φ (Option Nat) := fun u =>
  let found := recordedVersion name u.agent.files
  .ok found.1 { u with agent := { u.agent with files := found.2 } }

/-- Fetch a manifest as text; of a longer one, the front is taken. -/
def fetchManifest (config : UpdateConfig) : Action φ String := do
  let url ← require ((resourceUrl config "txt").mapError .versionFetch)
  let u ← get
  let (t, buffer) := u.client.getText url (List.replicate Manifest.capacity 0) Manifest.capacity
    config.timeout
  set { u with client := t.client, events := u.events ++ t.events }
  let n ← require (t.result.mapError .versionFetch)
  match Utf8.toString? (buffer.take n) with
  | some line => pure line
  | none => throw .malformedManifest

/-- Download an image into its file. -/
def download (config : UpdateConfig) (url : String) (sink : FileSink) : Action φ Unit := fun u =>
  let t := u.client.get url config.timeout
  let (files, sink) := t.into (u.agent.files, sink)
  let u := { agent := { u.agent with files }, client := t.client, events := u.events ++ t.events }
  match t.result, sink.error with
  | .error e, _ => .error (.imageFetch e) u
  | .ok _, some e => .error (.storage e) u
  | .ok _, none => .ok () u

/-- How many bytes of an image are checked at a time. -/
def checkedAtOnce : Nat := 64

/-- Feed a file to a digest from an offset on, until a read gives nothing; the result has the length
of the file. The offset is a number here, and a word of 32 bits in `Machine.checkImage`. -/
def digestFile (name : String) (digest : Digest) (offset : Nat) : FileAction φ (Digest × Nat) :=
  fun files =>
    match _hread : FileSystem.read name offset checkedAtOnce files with
    | .error e files => .error e files
    | .ok [] files => .ok (digest, offset) files
    | .ok (b :: bs) later =>
      digestFile name (digest.update (b :: bs)) (offset + (b :: bs).length) later
termination_by files => FileSystem.length name files - offset
decreasing_by
  -- what was read lies behind the offset, and it is not nothing
  have hwithin := FileSystem.read_within _hread
  rw [List.length_cons] at hwithin ⊢
  omega

/-- One round of the loop: a read, and what is made of it. -/
theorem digestFile_eq (name : String) (digest : Digest) (offset : Nat) (files : φ) :
    digestFile name digest offset files
      = match FileSystem.read name offset checkedAtOnce files with
        | .error e files => .error e files
        | .ok [] files => .ok (digest, offset) files
        | .ok (b :: bs) later =>
          digestFile name (digest.update (b :: bs)) (offset + (b :: bs).length) later := by
  rw [digestFile]
  split
  · next hread => rw [hread]
  · next hread => rw [hread]
  · next hread => rw [hread]

/-- Check a file against a manifest. -/
def verify (image : String) (manifest : Manifest) (checksum : Checksum) : Action φ Unit := do
  match ← onFiles (digestFile image (.start checksum) 0) with
  | .error e => throw (.storage e)
  | .ok (digest, size) =>
    if size = manifest.size ∧ digest.result.toNat = manifest.checksum then pure ()
    else throw .integrity

/-- Delete an image when a step fails. -/
def orDiscard (image : String) (action : Action φ Unit) : Action φ Unit := fun u =>
  match action u with
  | .ok _ u => .ok () u
  | .error e u =>
    match onFiles (FileSystem.remove image) u with
    | .ok _ u => .error e u
    | .error _ u => .error e u

/-- Delete files, as many of them as can be deleted; whether all could. -/
def removeAll : List String → φ → Bool × φ
  | [], files => (true, files)
  | name :: names, files =>
    match FileSystem.remove name files with
    | .ok _ files => removeAll names files
    | .error _ files => (false, (removeAll names files).2)

/-- Delete all images but one; whether all could be deleted. -/
def removeOtherImages (keep : String) : Action φ Bool := fun u =>
  let (removed, files) :=
    match FileSystem.list u.agent.files with
    | .error _ files => (false, files)
    | .ok names files =>
      removeAll (names.filter fun name => LocalFile.isImage name && !LetterCase.same name keep)
        files
  .ok removed { u with agent := { u.agent with files } }

/-- Record a version. -/
def record (file line : String) : Action φ Unit := do
  match ← onFiles (FileSystem.create file) with
  | .error _ => throw .versionWrite
  | .ok _ =>
    match ← onFiles (FileSystem.append file (Utf8.ofString line)) with
    | .error _ => throw .versionWrite
    | .ok _ => pure ()

/-- Ask the platform to start the new image. -/
def reboot : Action φ Unit := fun u =>
  let platform := u.agent.platform
  let u := { u with agent := { u.agent with platform.reboots := platform.reboots + 1 } }
  match platform.failure with
  | none => .ok () u
  | some e => .error e u

/-- Download and check the image of a manifest. -/
def fetchImage (config : UpdateConfig) (image : String) (manifest : Manifest) :
    Action φ Unit := do
  let url ← require ((resourceUrl config "bin").mapError .imageFetch)
  match ← onFiles (FileSink.create image) with
  | .error e => throw (.storage e)
  | .ok sink => orDiscard image (download config url sink)
  enter .verifying
  orDiscard image (verify image manifest config.checksum)

/-- Install the version of a manifest. -/
def install (config : UpdateConfig) (versionFile line : String) (manifest : Manifest) :
    Action φ UpdateOutcome := do
  enter .downloading
  let image ← require (LocalFile.imageFile config.name manifest.version)
  fetchImage config image manifest
  let removed ← removeOtherImages image
  record versionFile (String.ofList (Blank.trim line.toList))
  enter .installed
  if config.reboot = .auto then reboot
  pure (.updated manifest.version !removed)

/-- A whole update. -/
def perform (config : UpdateConfig) : Action φ UpdateOutcome := do
  enter .checking
  let versionFile ← require (LocalFile.versionFile config.name)
  let installed ← installedVersion config.name
  let line ← fetchManifest config
  let manifest ← require (Manifest.parse line)
  if installed = some manifest.version then pure .upToDate
  else install config versionFile line manifest

end Update

namespace Agent

variable {φ : Type} [FileSystem φ]

/-- What a run leaves: its result and the update at its end. -/
abbrev Run (φ : Type) := Except UpdateError UpdateOutcome × Update φ

/-- Look for an update and install it. An agent that did not install anything is idle again. -/
def run (config : UpdateConfig) (client : Client) (agent : Agent φ) : Run φ :=
  let idle (u : Update φ) : Update φ := { u with agent := { u.agent with phase := .idle } }
  match Update.perform config { agent, client } with
  | .ok (.updated version stale) u => (.ok (.updated version stale), u)
  | .ok .upToDate u => (.ok .upToDate, idle u)
  | .error e u => (.error e, idle u)

/-- The version that is installed. -/
def installedVersion (name : String) (agent : Agent φ) : Option Nat × Agent φ :=
  let found := Update.recordedVersion name agent.files
  (found.1, { agent with files := found.2 })

end Agent

end DeviceHttp
