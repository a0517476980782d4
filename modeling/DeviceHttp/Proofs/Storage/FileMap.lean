import DeviceHttp.Storage.Monitored
import Mathlib.Data.List.Perm.Subperm
import Mathlib.Logic.Function.Basic

/-!
# File systems as maps

What is known of a file system that keeps its promises is that it is a map from names to contents,
and what each call does to that map: `FileMap` says it of every state that calls lead to. A call may
fail at any time, and then it leaves the map alone, so nothing here says that a call succeeds. That
much more is said by `FileMap.Reliable`. A file system that is disturbed keeps the map of the one it
disturbs, and is not reliable.
-/

namespace DeviceHttp

/-- The contents of the files that there are, by name. -/
abbrev Contents := String → Option Bytes

/-- A call that starts with the contents `before` ends well: if it succeeds, its answer and the
contents then are as `after` says, and if it fails, the contents are what they were. -/
inductive FileAction.Keeps {φ α : Type} (Sound : φ → Prop) (contents : φ → Contents)
    (before : Contents) (after : α → Contents → Prop) : EStateM.Result StorageError φ α → Prop
  | ok {a : α} {files : φ} (sound : Sound files) (done : after a (contents files)) :
    Keeps Sound contents before after (.ok a files)
  | error {e : StorageError} {files : φ} (sound : Sound files) (same : contents files = before) :
    Keeps Sound contents before after (.error e files)

/-- What is known behind a call that succeeds can be weakened. -/
theorem FileAction.Keeps.imp {φ α : Type} {Sound : φ → Prop} {contents : φ → Contents}
    {before : Contents} {after after' : α → Contents → Prop}
    {result : EStateM.Result StorageError φ α} (h : Keeps Sound contents before after result)
    (himp : ∀ a later, after a later → after' a later) :
    Keeps Sound contents before after' result := by
  cases h with
  | ok sound done => exact .ok sound (himp _ _ done)
  | error sound same => exact .error sound same

/-- The files that a call leaves. -/
def FileAction.left {φ α : Type} : EStateM.Result StorageError φ α → φ
  | .ok _ files => files
  | .error _ files => files

/-- A file system that is a map from names to contents. -/
class FileMap (φ : Type) [FileSystem φ] where
  /-- What holds of all states that calls lead to. -/
  Sound : φ → Prop
  contents : φ → Contents
  isValid_of_contents {files : φ} {name : String} {content : Bytes} :
    Sound files → contents files name = some content → FileName.isValid name = true
  create {files : φ} (name : String) : Sound files →
    FileAction.Keeps Sound contents (contents files)
      (fun _ later => later = Function.update (contents files) name (some []))
      (FileSystem.create name files)
  append {files : φ} (name : String) (bytes : Bytes) : Sound files →
    FileAction.Keeps Sound contents (contents files)
      (fun _ later => ∃ content, contents files name = some content ∧
        later = Function.update (contents files) name (some (content ++ bytes)))
      (FileSystem.append name bytes files)
  read {files : φ} (name : String) (offset room : Nat) : Sound files →
    FileAction.Keeps Sound contents (contents files)
      (fun bytes later => later = contents files ∧
        ∃ content, contents files name = some content ∧ bytes = (content.drop offset).take room)
      (FileSystem.read name offset room files)
  size {files : φ} (name : String) : Sound files →
    FileAction.Keeps Sound contents (contents files)
      (fun n later => later = contents files ∧
        ∃ content, contents files name = some content ∧
          (content.length < UInt32.size → n = content.length))
      (FileSystem.size name files)
  remove {files : φ} (name : String) : Sound files →
    FileAction.Keeps Sound contents (contents files)
      (fun _ later => later = Function.update (contents files) name none)
      (FileSystem.remove name files)
  list {files : φ} : Sound files →
    FileAction.Keeps Sound contents (contents files)
      (fun names later => later = contents files ∧ names.Nodup ∧
        ∀ name, name ∈ names ↔ (contents files name).isSome)
      (FileSystem.list files)

namespace FileMap

variable {φ : Type} [FileSystem φ] [FileMap φ]

/-- A file that is there can be emptied, read and deleted. -/
structure Reliable (φ : Type) [FileSystem φ] [FileMap φ] : Prop where
  create {files : φ} {name : String} {content : Bytes} :
    Sound files → contents files name = some content →
      ∃ later, FileSystem.create name files = .ok () later
  read {files : φ} {name : String} {content : Bytes} (offset room : Nat) :
    Sound files → contents files name = some content →
      ∃ later, FileSystem.read name offset room files = .ok ((content.drop offset).take room) later
  remove {files : φ} {name : String} {content : Bytes} :
    Sound files → contents files name = some content →
      ∃ later, FileSystem.remove name files = .ok () later

/-- A listing holds so many names at most. -/
def ListsFew (φ : Type) [FileSystem φ] : Prop :=
  ∀ (files later : φ) (names : List String),
    FileSystem.list files = .ok names later → names.length ≤ FileSystem.maxListed

/-- Where there are more files than a listing holds, none is made. It is not cut short, and so it
never hides a file. -/
theorem ListsFew.list_fails (h : ListsFew φ) {files : φ} (hsound : Sound files)
    {names : List String} (hdistinct : names.Nodup)
    (hthere : ∀ name ∈ names, (contents files name).isSome)
    (hmany : FileSystem.maxListed < names.length) :
    ∃ e later, FileSystem.list files = .error e later := by
  have hlist := FileMap.list hsound
  cases hresult : FileSystem.list files with
  | error e later => exact ⟨e, later, rfl⟩
  | ok listed later =>
    have hfew := h files later listed hresult
    rw [hresult] at hlist
    cases hlist with
    | ok sound done =>
      have hall : names ⊆ listed := fun name hname => (done.2.2 name).2 (hthere name hname)
      have hlength := (List.subperm_of_subset hdistinct hall).length_le
      omega

end FileMap

/-! ## File systems that are disturbed -/

namespace Monitored

variable {φ α : Type} {Sound : φ → Prop} {contents : φ → Contents} {before : Contents}
  {after : α → Contents → Prop} {action : FileAction φ α}

/-- A call that is noted, or fails instead, ends as well as the call. -/
theorem keeps_perform {m : Monitored φ} (call : FileCall) (measure : α → Option Nat)
    (hsound : Sound m.files) (hbefore : contents m.files = before)
    (h : FileAction.Keeps Sound contents before after (action m.files)) :
    FileAction.Keeps (fun m : Monitored φ => Sound m.files) (fun m => contents m.files) before after
      (perform call measure action m) := by
  unfold perform
  cases m.fault call.kind (m.count call.kind) with
  | some e => exact .error hsound hbefore
  | none =>
    dsimp only
    generalize action m.files = result at h
    cases h with
    | ok sound done => exact .ok sound done
    | error sound same => exact .error sound same

/-- What a watched file system lists is what the one behind it lists, so there are not too many
names either. -/
theorem listsFew [FileSystem φ] (h : FileMap.ListsFew φ) : FileMap.ListsFew (Monitored φ) := by
  intro m later names hlist
  change perform .list (fun names => some names.length) FileSystem.list m = .ok names later at hlist
  unfold perform at hlist
  split at hlist
  · cases hlist
  · split at hlist
    · next heq =>
      obtain ⟨rfl, -⟩ := EStateM.Result.ok.inj hlist
      exact h _ _ _ heq
    · cases hlist

instance [FileSystem φ] [FileMap φ] : FileMap (Monitored φ) where
  Sound m := FileMap.Sound m.files
  contents m := FileMap.contents m.files
  isValid_of_contents := FileMap.isValid_of_contents
  create name h := keeps_perform _ _ h rfl (FileMap.create name h)
  append name bytes h := keeps_perform _ _ h rfl (FileMap.append name bytes h)
  read name offset room h := keeps_perform _ _ h rfl (FileMap.read name offset room h)
  size name h := keeps_perform _ _ h rfl (FileMap.size name h)
  remove name h := keeps_perform _ _ h rfl (FileMap.remove name h)
  list h := keeps_perform _ _ h rfl (FileMap.list h)

end Monitored

end DeviceHttp
