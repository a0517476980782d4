import DeviceHttp.Proofs.Storage.FileMap
import DeviceHttp.Proofs.Transfer.Fetches
import DeviceHttp.Storage.FileSink

/-!
# Bodies in files

A sink that writes to a file touches no other file, whatever it is called with
(`FileSink.writes_acceptAll`, `FileMap.spares_of_writes`). Called in the way in which a transaction
calls it, it has the body in its file as far as it was handed over, or a part of it if the storage
failed (`FileSink.Filling`); a sink that noted no failure has all of it
(`FileSink.filled_of_handover`).
-/

namespace DeviceHttp

open FileMap (Sound contents)

variable {φ : Type} [FileSystem φ]

/-- Files behind some calls, each of which makes the file of this name, adds to it, or reads. -/
inductive FileSystem.Writes (name : String) (files : φ) : φ → Prop
  | refl : Writes name files files
  | create {later : φ} (h : Writes name files later) :
    Writes name files (FileAction.left (create name later))
  | append {later : φ} (bytes : Bytes) (h : Writes name files later) :
    Writes name files (FileAction.left (append name bytes later))
  | read {later : φ} (other : String) (offset room : Nat) (h : Writes name files later) :
    Writes name files (FileAction.left (read other offset room later))

theorem FileSystem.Writes.trans {name : String} {files later last : φ}
    (h : Writes name files later) (hlast : Writes name later last) : Writes name files last := by
  induction hlast with
  | refl => exact h
  | create _ ih => exact ih.create
  | append bytes _ ih => exact ih.append bytes
  | read other offset room _ ih => exact ih.read other offset room

namespace FileSink

open FileSystem (Writes)

variable {w : φ × FileSink}

/-- A sink keeps to its file, whatever it is called with. -/
theorem name_accept (call : Delivery) (w : φ × FileSink) :
    (Sink.accept w call).2.name = w.2.name := by
  obtain ⟨files, s⟩ := w
  cases call with
  | reset =>
    show (reset (files, s)).2.name = s.name
    unfold reset
    dsimp only
    split <;> rfl
  | setLength n =>
    show (s.setLength n).name = s.name
    unfold setLength
    dsimp only
    split <;> rfl
  | setChunked on => rfl
  | setContentType value => rfl
  | write slice =>
    show (write slice (files, s)).2.2.name = s.name
    unfold write
    dsimp only
    split
    · rfl
    · split
      · split <;> rfl
      · split
        · rfl
        · dsimp only
          split <;> rfl

theorem name_acceptAll (calls : List Delivery) (w : φ × FileSink) :
    (Sink.acceptAll w calls).2.name = w.2.name := by
  induction calls generalizing w with
  | nil => rfl
  | cons call calls ih => exact (ih _).trans (name_accept call w)

/-- Whatever a sink is called with, it writes to no file but its own, and removes none. -/
theorem writes_accept (call : Delivery) (w : φ × FileSink) :
    Writes w.2.name w.1 (Sink.accept w call).1 := by
  obtain ⟨files, s⟩ := w
  cases call with
  | reset =>
    have hcreate := (.refl : Writes s.name files files).create
    show Writes s.name files (reset (files, s)).1
    unfold reset
    dsimp only
    split <;> next heq => rwa [heq] at hcreate
  | setLength n => exact .refl
  | setChunked on => exact .refl
  | setContentType value => exact .refl
  | write slice =>
    have happend := (.refl : Writes s.name files files).append slice
    show Writes s.name files (write slice (files, s)).2.1
    unfold write
    dsimp only
    split
    · exact .refl
    · split
      · exact .refl
      · split <;> next heq => rwa [heq] at happend

/-- A sink writes its own file only. -/
theorem writes_acceptAll (calls : List Delivery) (w : φ × FileSink) :
    Writes w.2.name w.1 (Sink.acceptAll w calls).1 := by
  induction calls generalizing w with
  | nil => exact .refl
  | cons call calls ih =>
    have hrest := ih (Sink.accept w call)
    rw [name_accept] at hrest
    exact (writes_accept call w).trans hrest

/-- A sink that was made for a file has created that file and touched no other. -/
theorem ok_of_create {name : String} {files later : φ} {sink : FileSink}
    (h : create name files = .ok sink later) : sink.name = name ∧ Writes name files later := by
  have hcreate := (.refl : Writes name files files).create
  unfold FileSink.create FileName.check at h
  split at h
  · cases h
  · next checked hchecked =>
    split at hchecked
    · obtain rfl := Except.ok.inj hchecked
      split at h
      · next heq =>
        obtain ⟨rfl, rfl⟩ := EStateM.Result.ok.inj h
        exact ⟨rfl, by rwa [heq] at hcreate⟩
      · cases h
    · cases hchecked

/-- A closed sink takes no slice. -/
theorem write_of_closed (h : w.2.isOpen = false) (slice : Bytes) : (write slice w).2 = w := by
  obtain ⟨files, s⟩ := w
  unfold write
  dsimp only
  rw [if_pos h]

/-- The sink is closed and otherwise as it was. -/
structure Shut (w v : φ × FileSink) : Prop where
  closed : v.2.isOpen = false
  files : v.1 = w.1
  written : v.2.written = w.2.written
  error : v.2.error = w.2.error

/-- It takes a reset to open a sink again; any other call leaves it closed and the file as it is. -/
theorem shut_accept {call : Delivery} (h : w.2.isOpen = false) (hcall : call ≠ .reset) :
    Shut w (Sink.accept w call) := by
  obtain ⟨files, s⟩ := w
  cases call with
  | reset => exact absurd rfl hcall
  | setLength n =>
    show Shut (files, s) (files, s.setLength n)
    unfold setLength
    dsimp only
    split
    · exact ⟨rfl, rfl, rfl, rfl⟩
    · exact ⟨h, rfl, rfl, rfl⟩
  | setChunked on => exact ⟨h, rfl, rfl, rfl⟩
  | setContentType value => exact ⟨h, rfl, rfl, rfl⟩
  | write slice =>
    show Shut (files, s) (write slice (files, s)).2
    rw [write_of_closed h]
    exact ⟨h, rfl, rfl, rfl⟩

/-- A closed sink stays closed until it is reset, and nothing is written meanwhile. -/
theorem shut_acceptAll {calls : List Delivery} (h : w.2.isOpen = false) (hcalls : .reset ∉ calls) :
    Shut w (Sink.acceptAll w calls) := by
  induction calls generalizing w with
  | nil => exact ⟨h, rfl, rfl, rfl⟩
  | cons call calls ih =>
    rw [List.mem_cons, not_or] at hcalls
    have hfirst := shut_accept h fun hcall => hcalls.1 hcall.symm
    have hrest := ih hfirst.closed hcalls.2
    exact ⟨hrest.closed, hrest.files.trans hfirst.files, hrest.written.trans hfirst.written,
      hrest.error.trans hfirst.error⟩

/-- A sink that a failure of the storage has closed. -/
structure Broken (w : φ × FileSink) : Prop where
  closed : w.2.isOpen = false
  error : w.2.error ≠ none

theorem Broken.acceptAll {calls : List Delivery} (h : Broken w) (hcalls : .reset ∉ calls) :
    Broken (Sink.acceptAll w calls) := by
  have hshut := shut_acceptAll h.closed hcalls
  exact ⟨hshut.closed, hshut.error ▸ h.error⟩

/-- The end of a body changes nothing in the file, and closes a sink that waits for it because no
length was announced. -/
theorem accept_endMark (w : φ × FileSink) :
    let v := Sink.accept w (.write [])
    v.1 = w.1 ∧ v.2.error = w.2.error ∧ v.2.written = w.2.written ∧
      (w.2.chunked = true → v.2.isOpen = false) := by
  obtain ⟨files, s⟩ := w
  intro v
  have hv : v = (write [] (files, s)).2 := rfl
  rw [hv]
  unfold write
  dsimp only
  split
  · next hclosed => exact ⟨rfl, rfl, rfl, fun _ => hclosed⟩
  · rw [if_pos rfl]
    dsimp only
    split
    · exact ⟨rfl, rfl, rfl, fun _ => rfl⟩
    · next hsized => exact ⟨rfl, rfl, rfl, fun hchunked => absurd hchunked hsized⟩

end FileSink

variable [FileMap φ]

namespace FileMap

/-- No file but the one of this name is touched, and that one is not lost. -/
structure Spares (name : String) (files later : φ) : Prop where
  sound : Sound later
  others : ∀ other, other ≠ name → contents later other = contents files other
  present : (∃ content, contents files name = some content) →
    ∃ content, contents later name = some content

theorem Spares.trans {name : String} {files later last : φ} (h : Spares name files later)
    (hlast : Spares name later last) : Spares name files last :=
  ⟨hlast.sound, fun other hother => (hlast.others other hother).trans (h.others other hother),
    fun hfile => hlast.present (h.present hfile)⟩

/-- A call that changes nothing, or gives the file another content. -/
theorem spares_of_keeps {name : String} {files : φ} {α : Type} {after : α → Contents → Prop}
    {result : EStateM.Result StorageError φ α}
    (h : FileAction.Keeps Sound contents (contents files) after result)
    (hafter : ∀ a later, after a later → later = contents files ∨
      ∃ content, later = Function.update (contents files) name (some content)) :
    Spares name files (FileAction.left result) := by
  have hsame {later : φ} (sound : Sound later) (same : contents later = contents files) :
      Spares name files later :=
    ⟨sound, fun other _ => congrFun same other, fun hfile => by rwa [same]⟩
  cases h with
  | error sound same => exact hsame sound same
  | @ok _ later sound done =>
    rcases hafter _ _ done with same | ⟨content, hcontent⟩
    · exact hsame sound same
    · refine ⟨sound, fun other hother => ?_, fun _ => ⟨content, ?_⟩⟩
      · show contents later other = _
        rw [hcontent, Function.update_of_ne hother]
      · show contents later name = _
        rw [hcontent, Function.update_self]

/-- Calls that write to one file spare all others. -/
theorem spares_of_writes {name : String} {files later : φ} (hsound : Sound files)
    (h : FileSystem.Writes name files later) : Spares name files later := by
  induction h with
  | refl => exact ⟨hsound, fun _ _ => rfl, id⟩
  | create _ ih =>
    exact ih.trans (spares_of_keeps (FileMap.create name ih.sound) fun _ _ done => .inr ⟨[], done⟩)
  | append bytes _ ih =>
    exact ih.trans (spares_of_keeps (FileMap.append name bytes ih.sound)
      fun _ _ ⟨content, _, done⟩ => .inr ⟨content ++ bytes, done⟩)
  | read other offset room _ ih =>
    exact ih.trans (spares_of_keeps (FileMap.read other offset room ih.sound)
      fun _ _ done => .inl done.1)

/-- Files among which there is one of this name, beside others that are as they were. -/
structure Frames (name : String) (before : Contents) (files : φ) : Prop where
  sound : Sound files
  others : ∀ other, other ≠ name → contents files other = before other
  present : ∃ content, contents files name = some content

namespace Frames

variable {name : String} {before : Contents} {files : φ}

theorem of_same {later : φ} (h : Frames name before files) (hsound : Sound later)
    (hsame : contents later = contents files) : Frames name before later :=
  ⟨hsound, fun other hother => (congrFun hsame other).trans (h.others other hother),
    h.present.imp fun _ => (congrFun hsame name).trans⟩

theorem writes {later : φ} (h : Frames name before files)
    (hlater : FileSystem.Writes name files later) : Frames name before later := by
  have hspares := spares_of_writes h.sound hlater
  exact ⟨hspares.sound, fun other hother => (hspares.others other hother).trans
    (h.others other hother), hspares.present h.present⟩

end Frames

end FileMap

namespace FileSink

open FileMap (Frames)
open FileSystem (Writes)

variable {w : φ × FileSink} {name : String} {before : Contents}

/-- A sink touches its own file only. -/
theorem frames_acceptAll (h : Frames w.2.name before w.1) (calls : List Delivery) :
    Frames w.2.name before (Sink.acceptAll w calls).1 :=
  h.writes (writes_acceptAll calls w)

/-! ## What a sink has in its file -/

/-- What becomes of a slice that an open sink is given: it is added to the file, and the sink may be
complete with it, or the storage fails and the files are as they were. -/
theorem write_cases {slice part : Bytes} (hsound : Sound w.1) (hopen : w.2.isOpen = true)
    (hslice : slice ≠ []) (hpart : contents w.1 w.2.name = some part) :
    (∃ later, (write slice w).2 = (later,
        let s := { w.2 with written := w.2.written + slice.length }
        if s.chunked = false ∧ s.length ≤ s.written then s.close else s) ∧
      Sound later ∧ contents later w.2.name = some (part ++ slice)) ∨
    ∃ later e, (write slice w).2 = (later, w.2.fail e) ∧ Sound later ∧
      contents later = contents w.1 := by
  obtain ⟨files, s⟩ := w
  have happend := FileMap.append s.name slice hsound
  unfold write
  dsimp only at hopen hpart happend ⊢
  rw [if_neg (by simp [hopen]), if_neg hslice]
  generalize FileSystem.append s.name slice files = result at happend
  cases happend with
  | @ok _ later sound done =>
    obtain ⟨content, hcontent, hlater⟩ := done
    obtain rfl : part = content := Option.some.inj (hpart.symm.trans hcontent)
    exact .inl ⟨later, rfl, sound, by rw [hlater, Function.update_self]⟩
  | @error e later sound same => exact .inr ⟨later, e, rfl, sound, same⟩

/-- The sink has been handed `body`, which is all or the front of a body of this length, or of one
in chunks if no length is given. What is in the file is that, or a part of it if the storage
failed. -/
structure Filling (total : Option Nat) (body : Bytes) (w : φ × FileSink) : Prop where
  sound : Sound w.1
  chunked : w.2.chunked = total.isNone
  length : ∀ n, total = some n → w.2.length = n
  kept : ∃ part, contents w.1 w.2.name = some part ∧ w.2.written = part.length ∧
    part <+: body ∧ (w.2.error = none → part = body)
  working : w.2.isOpen = true → w.2.error = none
  complete : w.2.isOpen = false → w.2.error = none → ∃ n, total = some n ∧ n ≤ body.length
  waiting : w.2.isOpen = true → ∀ n, total = some n → body.length < n

namespace Filling

variable {total : Option Nat} {body slice : Bytes}

/-- One slice more, of a body that is not there whole: it is appended, or the sink is closed with
the failure on record. -/
theorem write (h : Filling total body w) (hslice : slice ≠ [])
    (hfits : ∀ n, total = some n → body.length + slice.length ≤ n) :
    Filling total (body ++ slice) (write slice w).2 := by
  obtain ⟨part, hpart, hwritten, hprefix, hwhole⟩ := h.kept
  have hpos : 0 < slice.length := List.length_pos_iff.2 hslice
  cases hopen : w.2.isOpen with
  | false =>
    -- a body that is there whole has no slice more, so the storage has failed
    have herror : w.2.error ≠ none := by
      intro hnone
      obtain ⟨n, hn, hle⟩ := h.complete hopen hnone
      have := hfits n hn
      omega
    rw [write_of_closed hopen]
    exact ⟨h.sound, h.chunked, h.length,
      ⟨part, hpart, hwritten, hprefix.trans (List.prefix_append _ _),
        fun hnone => absurd hnone herror⟩,
      h.working, fun _ hnone => absurd hnone herror, fun h => absurd h (by simp [hopen])⟩
  | true =>
    have hnone : w.2.error = none := h.working hopen
    obtain rfl := hwhole hnone
    have hlength : w.2.written + slice.length = (part ++ slice).length := by
      rw [hwritten, List.length_append]
    rcases write_cases h.sound hopen hslice hpart with
      ⟨later, hw, sound, hfile⟩ | ⟨later, e, hw, sound, same⟩
    · rw [hw]
      dsimp only
      split
      · next hend =>
        refine ⟨sound, h.chunked, h.length, ⟨_, hfile, hlength, List.prefix_rfl, fun _ => rfl⟩,
          nofun, fun _ _ => ?_, nofun⟩
        cases total with
        | none => exact absurd (h.chunked.symm.trans hend.1) nofun
        | some n =>
          have hn : w.2.length = n := h.length n rfl
          exact ⟨n, rfl, by rw [← hlength, ← hn]; exact hend.2⟩
      · next hmore =>
        refine ⟨sound, h.chunked, h.length, ⟨_, hfile, hlength, List.prefix_rfl, fun _ => rfl⟩,
          h.working, fun hclosed => absurd (hopen.symm.trans hclosed) nofun, fun _ n hn => ?_⟩
        have hchunked : w.2.chunked = false := by rw [h.chunked, hn]; rfl
        have hle : ¬ w.2.length ≤ w.2.written + slice.length := fun hle => hmore ⟨hchunked, hle⟩
        have hn : w.2.length = n := h.length n hn
        omega
    · rw [hw]
      exact ⟨sound, h.chunked, h.length,
        ⟨part, (congrFun same w.2.name).trans hpart, hwritten, List.prefix_append _ _, nofun⟩,
        nofun, nofun, nofun⟩

/-- The slices of a body, as far as it is handed over, one after the other. -/
theorem slices {slices : List Bytes} (h : Filling total body w) (hslices : ∀ s ∈ slices, s ≠ [])
    (hfits : ∀ n, total = some n → body.length + slices.flatten.length ≤ n) :
    Filling total (body ++ slices.flatten) (Sink.acceptAll w (slices.map .write)) := by
  induction slices generalizing body w with
  | nil => simpa using h
  | cons slice slices ih =>
    obtain ⟨hslice, hrest⟩ := List.forall_mem_cons.1 hslices
    rw [List.flatten_cons, List.length_append] at hfits
    rw [List.flatten_cons, ← List.append_assoc]
    refine ih (h.write hslice fun n hn => ?_) hrest fun n hn => ?_
    · have := hfits n hn
      omega
    · have := hfits n hn
      rw [List.length_append]
      omega

/-- The announcement of a body, to a sink that was reset: the file is there and empty, and the sink
waits for as much as was announced. -/
theorem announced {files : φ} {name : String} (hsound : Sound files)
    (hempty : contents files name = some []) (total : Option Nat) (type : Option String) :
    Filling total []
      (Sink.acceptAll (files, ({ name } : FileSink)) (Delivery.announced total type)) := by
  have htype (w : φ × FileSink) :
      Sink.acceptAll w (type.map Delivery.setContentType).toList = w := by
    cases type <;> rfl
  unfold Delivery.announced
  rw [Sink.acceptAll_cons, htype]
  cases total with
  | none =>
    exact ⟨hsound, rfl, nofun, ⟨[], hempty, rfl, List.prefix_rfl, fun _ => rfl⟩, fun _ => rfl,
      nofun, nofun⟩
  | some n =>
    show Filling (some n) [] (files, setLength n { name })
    unfold setLength
    dsimp only
    split
    · next hzero =>
      refine ⟨hsound, rfl, fun m hm => Option.some.inj hm,
        ⟨[], hempty, rfl, List.prefix_rfl, fun _ => rfl⟩, nofun, fun _ _ => ⟨n, rfl, ?_⟩, nofun⟩
      exact Nat.le_of_eq hzero.2
    · next hmore =>
      refine ⟨hsound, rfl, fun m hm => Option.some.inj hm,
        ⟨[], hempty, rfl, List.prefix_rfl, fun _ => rfl⟩, fun _ => rfl, nofun, fun _ m hm => ?_⟩
      exact Nat.pos_of_ne_zero fun hzero => hmore ⟨rfl, (Option.some.inj hm).trans hzero⟩

end Filling

/-- A sink for a file is made with an empty file, or not at all. -/
theorem keeps_create (name : String) {files : φ} (hsound : Sound files) :
    FileAction.Keeps Sound contents (contents files)
      (fun sink later => sink.name = name ∧
        later = Function.update (contents files) name (some []))
      (create name files) := by
  have hcreate := FileMap.create name hsound
  unfold FileSink.create FileName.check
  split
  · next h =>
    split at h
    · cases h
    · exact .error hsound rfl
  · next checked h =>
    split at h
    · obtain rfl := Except.ok.inj h
      generalize FileSystem.create name files = result at hcreate
      cases hcreate with
      | ok sound done => exact .ok sound ⟨rfl, done⟩
      | error sound same => exact .error sound same
    · cases h

/-- A file that a sink was made for, whatever has been written to it since. -/
theorem frames_of_create {name : String} {files before made later : φ} {sink : FileSink}
    (hsound : Sound files) (hbefore : Writes name files before)
    (hcreate : create name before = .ok sink made) (hlater : Writes name made later) :
    Frames name (contents files) later := by
  have hspares := FileMap.spares_of_writes hsound hbefore
  have hmade := keeps_create name hspares.sound
  rw [hcreate] at hmade
  cases hmade with
  | ok sound done =>
    refine Frames.writes ⟨sound, fun other hother => ?_, [], ?_⟩ hlater
    · rw [done.2, Function.update_of_ne hother]
      exact hspares.others other hother
    · rw [done.2, Function.update_self]

/-- Where a file that is there can be emptied, a sink is made for it. -/
theorem exists_create {name : String} {files : φ} {content : Bytes}
    (hreliable : FileMap.Reliable φ) (hsound : Sound files)
    (hcontent : contents files name = some content) :
    ∃ sink later, create name files = .ok sink later := by
  obtain ⟨later, hlater⟩ := hreliable.create hsound hcontent
  rw [create, FileName.check, if_pos (FileMap.isValid_of_contents hsound hcontent)]
  dsimp only
  rw [hlater]
  exact ⟨_, _, rfl⟩

/-- A sink whose reset failed is broken, and the others are empty. -/
theorem reset_cases (hsound : Sound w.1) :
    Broken (reset w) ∨ ∃ files, reset w = (files, { name := w.2.name }) ∧ Sound files ∧
      contents files w.2.name = some [] := by
  obtain ⟨files, s⟩ := w
  have hcreate := FileMap.create s.name hsound
  unfold reset
  dsimp only at hcreate ⊢
  generalize FileSystem.create s.name files = result at hcreate
  cases hcreate with
  | error sound same => exact .inl ⟨rfl, nofun⟩
  | @ok _ later sound done => exact .inr ⟨later, rfl, sound, by rw [done, Function.update_self]⟩

/-- A sink that was reset and handed a body, all of it or the front, has what `Filling` says, unless
the storage failed. -/
theorem broken_or_filling (total : Option Nat) (type : Option String) {slices : List Bytes}
    (hsound : Sound w.1) (hnonempty : ∀ s ∈ slices, s ≠ [])
    (hfits : ∀ n, total = some n → slices.flatten.length ≤ n) :
    let v := Sink.acceptAll w (.reset :: (Delivery.announced total type ++ slices.map .write))
    Broken v ∨ Filling total slices.flatten v := by
  intro v
  rcases reset_cases hsound with hbroken | ⟨files, hnew, hfiles, hempty⟩
  · refine .inl (hbroken.acceptAll ?_)
    simp [Delivery.reset_not_mem_announced total type]
  · have hfilling := (Filling.announced hfiles hempty total type).slices hnonempty
      fun n hn => by rw [List.length_nil, Nat.zero_add]; exact hfits n hn
    rw [← Sink.acceptAll_append, List.nil_append, ← hnew] at hfilling
    exact .inr hfilling

/-- The body is in the file, and the sink has counted it. -/
structure Filled (body : Bytes) (w : φ × FileSink) : Prop where
  content : contents w.1 w.2.name = some body
  written : w.2.written = body.length

theorem Filling.filled {total : Option Nat} {body : Bytes} (h : Filling total body w)
    (herror : w.2.error = none) : Filled body w := by
  obtain ⟨part, hpart, hwritten, -, hwhole⟩ := h.kept
  obtain rfl := hwhole herror
  exact ⟨hpart, hwritten⟩

/-- The end of a body takes nothing out of the file. -/
theorem Filled.accept_endMark {body : Bytes} (h : Filled body w) :
    Filled body (Sink.accept w (.write [])) := by
  obtain ⟨hfiles, -, hwritten, -⟩ := FileSink.accept_endMark w
  refine ⟨?_, hwritten.trans h.written⟩
  rw [hfiles, name_accept]
  exact h.content

/-- A sink that was handed a response, and noted no failure, has the body in its file. If that came
whole, the sink is closed. -/
theorem filled_of_handover {capacity : Nat} {succeeds : Prop} {calls : List Delivery}
    (h : Delivery.Handover capacity succeeds calls) (hsound : Sound w.1)
    (herror : (Sink.acceptAll w (.reset :: calls)).2.error = none) :
    Filled (Delivery.written calls) (Sink.acceptAll w (.reset :: calls)) ∧
      (succeeds → (Sink.acceptAll w (.reset :: calls)).2.isOpen = false) := by
  cases h with
  | sized n type slices nonempty narrow within whole =>
    have hfits : ∀ m, some n = some m → slices.flatten.length ≤ m :=
      fun m hm => Option.some.inj hm ▸ within
    have hwritten : Delivery.written (Delivery.announced (some n) type ++ slices.map .write ++ [])
        = slices.flatten := Delivery.written_of_parts (.inl rfl)
    rw [List.append_nil] at hwritten
    rcases broken_or_filling (some n) type hsound nonempty hfits with hbroken | hfilling
    · exact absurd herror hbroken.error
    · refine ⟨?_, fun hsucceeds => ?_⟩
      · have hfilled := hfilling.filled herror
        rwa [← hwritten] at hfilled
      · rw [← Bool.not_eq_true]
        intro hopen
        have hless := hfilling.waiting hopen n rfl
        have hequal := whole.2 hsucceeds
        omega
  | chunked type slices mark nonempty narrow ended =>
    have hcases := broken_or_filling none type hsound nonempty nofun
    have hcalls : Sink.acceptAll w (.reset :: (.setChunked true ::
        (type.map .setContentType).toList ++ slices.map .write ++ mark))
        = Sink.acceptAll (Sink.acceptAll w (.reset :: (Delivery.announced none type
          ++ slices.map .write))) mark := by
      rw [← Sink.acceptAll_append]
      rfl
    have hwritten : Delivery.written (Delivery.announced none type ++ slices.map .write ++ mark)
        = slices.flatten := Delivery.written_of_parts (ended.imp And.left And.left).symm
    rw [hcalls] at herror ⊢
    generalize Sink.acceptAll w (.reset :: (Delivery.announced none type ++ slices.map .write))
      = v at *
    rcases ended with ⟨rfl, hsucceeds⟩ | ⟨rfl, hfails⟩
    · obtain ⟨-, hsame, -, hcloses⟩ := accept_endMark v
      change (Sink.accept v (.write [])).2.error = none at herror
      rw [hsame] at herror
      rcases hcases with hbroken | hfilling
      · exact absurd herror hbroken.error
      · refine ⟨?_, fun _ => hcloses hfilling.chunked⟩
        have hfilled := (hfilling.filled herror).accept_endMark
        rwa [← hwritten] at hfilled
    · rcases hcases with hbroken | hfilling
      · exact absurd herror hbroken.error
      · refine ⟨?_, fun hsucceeds => absurd hsucceeds hfails⟩
        have hfilled := hfilling.filled herror
        rwa [← hwritten] at hfilled

theorem contents_of_handover {capacity : Nat} {succeeds : Prop} {calls : List Delivery}
    (h : Delivery.Handover capacity succeeds calls) (hsound : Sound w.1)
    (herror : (Sink.acceptAll w (.reset :: calls)).2.error = none) :
    contents (Sink.acceptAll w (.reset :: calls)).1 w.2.name = some (Delivery.written calls) := by
  rw [← name_acceptAll (.reset :: calls) w]
  exact (filled_of_handover h hsound herror).1.content

end FileSink

end DeviceHttp
