import DeviceHttp.Proofs.Firmware.Installation

/-!
# What an installation cleans up

An update that installs a version writes the file of its image, removes other images, and writes the
record (`Update.ok_of_perform`). Between the two the files are written by calls that remove nothing,
so all that is removed is removed by the cleanup, which leaves every file that is no image alone. The
journal of the calls tells whether the cleanup went through: the update reports that images are left
exactly if the listing or a removal failed (`Agent.run_cleans_up`).
-/

namespace DeviceHttp

open FileMap (Sound contents)
open FileSystem (Writes)

/-! ## Steps that only write -/

section Writing

variable {φ α : Type} [FileSystem φ]

namespace Update

variable {u w : Update φ} {config : UpdateConfig} {image : String} {m : Manifest}

omit [FileSystem φ] in
/-- A call on the files never fails the update, whatever it answers. -/
theorem ok_of_onFiles {action : FileAction φ α} {r : Except StorageError α}
    (h : onFiles action u = .ok r w) :
    w.agent.files = FileAction.left (action u.agent.files) ∧
      ∀ a, r = .ok a → action u.agent.files = .ok a w.agent.files := by
  unfold onFiles at h
  cases haction : action u.agent.files with
  | ok a files =>
    rw [haction] at h
    obtain ⟨rfl, rfl⟩ := EStateM.Result.ok.inj h
    exact ⟨rfl, fun b hb => by rw [Except.ok.inj hb]⟩
  | error e files =>
    rw [haction] at h
    obtain ⟨rfl, rfl⟩ := EStateM.Result.ok.inj h
    exact ⟨rfl, nofun⟩

theorem writes_recordedVersion (file name : String) (files : φ) :
    Writes file files (recordedVersion name files).2 := by
  have hread := (.refl : Writes file files files).read (LocalFile.recordName name) 0
    Manifest.capacity
  rw [recordedVersion, LocalFile.versionFile_eq]
  dsimp only
  split <;> next heq => rwa [heq] at hread

/-- The check of an image reads its file, and so writes at most to the one file that calls may write
to. -/
theorem writes_digestFile (file name : String) (digest : Digest) (offset : Nat) (files : φ) :
    Writes file files (FileAction.left (digestFile name digest offset files)) := by
  have hread {files : φ} {offset : Nat} {r : EStateM.Result StorageError φ Bytes}
      (h : FileSystem.read name offset checkedAtOnce files = r) :
      Writes file files (FileAction.left r) :=
    h ▸ Writes.refl.read name offset checkedAtOnce
  fun_induction digestFile name digest offset files with
  | case1 digest offset files e later h => exact hread h
  | case2 digest offset files later h => exact hread h
  | case3 digest offset files b bs later h ih => exact (hread h).trans ih

/-- A download that succeeds has written to no file but that of its sink. -/
theorem writes_of_download {url : String} {sink : FileSink}
    (h : download config url sink u = .ok () w) : Writes sink.name u.agent.files w.agent.files := by
  rw [download_eq] at h
  split at h
  · cases h
  · cases h
  · obtain ⟨-, rfl⟩ := EStateM.Result.ok.inj h
    exact FileSink.writes_acceptAll _ (u.agent.files, sink)

/-- A step that succeeds has discarded nothing. -/
theorem ok_of_orDiscard {action : Action φ Unit} (h : orDiscard image action u = .ok () w) :
    action u = .ok () w := by
  unfold orDiscard at h
  split at h
  · next heq =>
    obtain ⟨-, rfl⟩ := EStateM.Result.ok.inj h
    exact heq
  · split at h <;> cases h

/-- A check that succeeds has written to no file. -/
theorem writes_of_verify {checksum : Checksum} (file : String)
    (h : verify image m checksum u = .ok () w) : Writes file u.agent.files w.agent.files := by
  obtain ⟨r, v, hdigest, hrest⟩ := ok_of_bind h
  have hfiles := (ok_of_onFiles hdigest).1
  have hread := writes_digestFile file image (.start checksum) 0 u.agent.files
  rw [← hfiles] at hread
  split at hrest
  · cases hrest
  · split at hrest
    · obtain ⟨-, rfl⟩ := EStateM.Result.ok.inj hrest
      exact hread
    · cases hrest

/-- An image that was fetched is in a file that was created for it, and no other file was written
to. -/
theorem ok_of_fetchImage (h : fetchImage config image m u = .ok () w) :
    ∃ sink files, FileSink.create image u.agent.files = .ok sink files ∧
      Writes image files w.agent.files := by
  rw [fetchImage] at h
  obtain ⟨url, u₁, hurl, hfile⟩ := ok_of_bind h
  obtain ⟨-, hsame⟩ := ok_of_require hurl
  obtain ⟨r, u₂, hcreate, hbody⟩ := ok_of_bind hfile
  obtain ⟨-, hcreate⟩ := ok_of_onFiles hcreate
  rw [hsame] at hcreate
  cases r with
  | error e =>
    obtain ⟨_, _, hthrow, -⟩ := ok_of_bind hbody
    cases hthrow
  | ok sink =>
    have hcreate := hcreate sink rfl
    obtain ⟨_, u₃, hdownload, hcheck⟩ := ok_of_bind hbody
    obtain ⟨_, u₄, henter, hverify⟩ := ok_of_bind hcheck
    obtain ⟨-, hphase⟩ := EStateM.Result.ok.inj ((enter_ok .verifying u₃).symm.trans henter)
    have hdownload := writes_of_download (ok_of_orDiscard hdownload)
    have hverify := writes_of_verify image (ok_of_orDiscard hverify)
    rw [(FileSink.ok_of_create hcreate).1] at hdownload
    rw [← hphase] at hverify
    exact ⟨sink, _, hcreate, hdownload.trans hverify⟩

/-- A record that was written is written to its own file, and nothing is removed for it. -/
theorem writes_of_record {file line : String} (h : record file line u = .ok () w) :
    Writes file u.agent.files w.agent.files := by
  rw [record] at h
  obtain ⟨r, u₁, hcreate, hline⟩ := ok_of_bind h
  cases r with
  | error e => cases hline
  | ok _ =>
    obtain ⟨r, u₂, happend, hdone⟩ := ok_of_bind hline
    cases r with
    | error e => cases hdone
    | ok _ =>
      obtain ⟨-, rfl⟩ := EStateM.Result.ok.inj hdone
      rw [(ok_of_onFiles happend).1, (ok_of_onFiles hcreate).1]
      exact Writes.refl.create.append _

omit [FileSystem φ] in
/-- Activation comes last and leaves the files alone. -/
theorem ok_of_activate {outcome outcome' : UpdateOutcome}
    (h : activate config outcome u = .ok outcome' w) :
    outcome = outcome' ∧ w.agent.files = u.agent.files := by
  rcases activate_ends config outcome u with
    ⟨-, hend⟩ | ⟨-, v, hfiles, -, -, hend | ⟨e, -, hend⟩⟩
  · obtain ⟨houtcome, rfl⟩ := EStateM.Result.ok.inj (hend.symm.trans h)
    exact ⟨houtcome, rfl⟩
  · obtain ⟨houtcome, rfl⟩ := EStateM.Result.ok.inj (hend.symm.trans h)
    exact ⟨houtcome, hfiles⟩
  · cases hend.symm.trans h

/-- The parts of an installation in order: the image is fetched, other images are removed, and the
record is written. All that is removed is removed by the second one. -/
theorem ok_of_install {file line : String} {version : Nat} {stale : Bool}
    (h : install config file line m u = .ok (.updated version stale) w) :
    ∃ v v' : Update φ, ∃ sink files,
      FileSink.create (LocalFile.imageName config.name version) u.agent.files = .ok sink files ∧
      Writes (LocalFile.imageName config.name version) files v.agent.files ∧
      removeOtherImages (LocalFile.imageName config.name version) v = .ok (!stale) v' ∧
      Writes file v'.agent.files w.agent.files := by
  rw [install, bind_of_ok (enter_ok .downloading u), LocalFile.imageFile_eq,
    bind_of_ok (require_ok _ _)] at h
  obtain ⟨_, v, hfetch, hclean⟩ := ok_of_bind h
  obtain ⟨removed, v', hremove, hfile⟩ := ok_of_bind hclean
  obtain ⟨_, v'', hrecord, hend⟩ := ok_of_bind hfile
  rw [bind_of_ok (enter_ok .installed v'')] at hend
  obtain ⟨sink, files, hcreate, himage⟩ := ok_of_fetchImage hfetch
  have hrecord := writes_of_record hrecord
  obtain ⟨houtcome, hfiles⟩ := ok_of_activate hend
  have hfiles : w.agent.files = v''.agent.files := hfiles
  obtain ⟨rfl, rfl⟩ := UpdateOutcome.updated.inj houtcome
  rw [Bool.not_not, hfiles]
  exact ⟨v, v', sink, files, hcreate, himage, hremove, hrecord⟩

/-- An update that installs a version makes the file of its image and writes to it, then deletes
other images, and then writes the record. -/
theorem ok_of_perform {version : Nat} {stale : Bool}
    (h : perform config u = .ok (.updated version stale) w) :
    ∃ v v' : Update φ, ∃ sink before files,
      Writes (LocalFile.imageName config.name version) u.agent.files before ∧
      FileSink.create (LocalFile.imageName config.name version) before = .ok sink files ∧
      Writes (LocalFile.imageName config.name version) files v.agent.files ∧
      removeOtherImages (LocalFile.imageName config.name version) v = .ok (!stale) v' ∧
      Writes (LocalFile.recordName config.name) v'.agent.files w.agent.files := by
  have hread := writes_recordedVersion (LocalFile.imageName config.name version) config.name
    u.agent.files
  rw [perform, bind_of_ok (enter_ok .checking u), LocalFile.versionFile_eq,
    bind_of_ok (require_ok _ _)] at h
  obtain ⟨installed, v₁, hlook, hmanifest⟩ := ok_of_bind h
  obtain ⟨-, hfound⟩ := EStateM.Result.ok.inj hlook
  obtain ⟨line, v₂, hfetch, hparse⟩ := ok_of_bind hmanifest
  have hagent : v₂.agent = v₁.agent := by
    rcases fetchManifest_ends config v₁ with ⟨line', -, hok⟩ | ⟨-, e, x, herror, -⟩
    · obtain ⟨-, hv⟩ := EStateM.Result.ok.inj (hok.symm.trans hfetch)
      rw [← hv]
      rfl
    · cases herror.symm.trans hfetch
  obtain ⟨m, v₃, hrequire, hinstall⟩ := ok_of_bind hparse
  obtain ⟨-, hsame⟩ := ok_of_require hrequire
  have hfiles : v₃.agent.files = (recordedVersion config.name u.agent.files).2 := by
    rw [hsame, hagent, ← hfound]
    rfl
  split at hinstall
  · cases hinstall
  · obtain ⟨v, v', sink, files, hcreate, hrest⟩ := ok_of_install hinstall
    rw [hfiles] at hcreate
    exact ⟨v, v', sink, _, files, hread, hcreate, hrest⟩

end Update

end Writing

/-! ## What a cleanup deletes -/

namespace Update

section Deleting

variable {φ : Type} [FileSystem φ] [FileMap φ] {u w : Update φ} {keep : String}

/-- If all files could be deleted, none of them is left: no deletion brings back a file that an
earlier one removed. -/
theorem removeAll_removes {names : List String} {files : φ} (hsound : Sound files)
    (h : (removeAll names files).1 = true) :
    ∀ name ∈ names, contents (removeAll names files).2 name = none := by
  induction names generalizing files with
  | nil => simp
  | cons name names ih =>
    intro other hother
    have hremove := FileMap.remove name hsound
    rw [removeAll] at h ⊢
    generalize FileSystem.remove name files = result at hremove h ⊢
    cases hremove with
    | error sound same => cases h
    | @ok _ later sound done =>
      by_cases hlater : other ∈ names
      · exact ih sound h other hlater
      · obtain rfl : other = name := (List.mem_cons.1 hother).resolve_right hlater
        refine ((removeAll_keeps names sound).2 other hlater).trans ?_
        rw [done, Function.update_self]

/-- A cleanup that went through leaves no image but those that are to be kept, in letters of either
case. -/
theorem removeOtherImages_removes (hsound : Sound u.agent.files)
    (h : removeOtherImages keep u = .ok true w) (name : String)
    (himage : LocalFile.isImage name = true) (hother : LetterCase.same name keep = false) :
    contents w.agent.files name = none := by
  have hlist := FileMap.list hsound
  unfold removeOtherImages at h
  generalize FileSystem.list u.agent.files = result at hlist h
  cases hlist with
  | error sound same => cases h
  | @ok names files sound done =>
    obtain ⟨hsame, -, hnames⟩ := done
    obtain ⟨hremoved, rfl⟩ := EStateM.Result.ok.inj h
    by_cases hmem : name ∈ names
    · refine removeAll_removes sound hremoved name (List.mem_filter.2 ⟨hmem, ?_⟩)
      rw [himage, hother]
      rfl
    · refine ((removeAll_keeps _ sound).2 name fun h => hmem (List.mem_filter.1 h).1).trans ?_
      rw [hsame]
      exact Option.not_isSome_iff_eq_none.1 (mt (hnames name).2 hmem)

end Deleting

end Update

/-! ## What is noted -/

namespace Monitored

variable {φ α : Type} {m later : Monitored φ}

/-- A call is noted with how it ended. -/
theorem perform_ends (call : FileCall) (measure : α → Option Nat) (action : FileAction φ α)
    (m : Monitored φ) :
    (∃ a next n, perform call measure action m = .ok a next ∧
      next.journal = m.journal ++ [⟨call, .ok n⟩]) ∨
    ∃ e next, perform call measure action m = .error e next ∧
      next.journal = m.journal ++ [⟨call, .error e⟩] := by
  unfold perform
  cases m.fault call.kind (m.count call.kind) with
  | some e => exact .inr ⟨e, _, rfl, rfl⟩
  | none =>
    dsimp only
    cases action m.files with
    | ok a files => exact .inl ⟨a, _, _, rfl, rfl⟩
    | error e files => exact .inr ⟨e, _, rfl, rfl⟩

theorem remove_ends [FileSystem φ] (name : String) (m : Monitored φ) :
    (∃ a next n, FileSystem.remove name m = .ok a next ∧
      next.journal = m.journal ++ [⟨.remove name, .ok n⟩]) ∨
    ∃ e next, FileSystem.remove name m = .error e next ∧
      next.journal = m.journal ++ [⟨.remove name, .error e⟩] :=
  perform_ends (.remove name) (fun _ => none) (FileSystem.remove name) m

theorem list_ends [FileSystem φ] (m : Monitored φ) :
    (∃ names next n, FileSystem.list m = .ok names next ∧
      next.journal = m.journal ++ [⟨.list, .ok n⟩]) ∨
    ∃ e next, FileSystem.list m = .error e next ∧
      next.journal = m.journal ++ [⟨.list, .error e⟩] :=
  perform_ends .list (fun names => some names.length) FileSystem.list m

/-- Calls were noted, and none of them lists or removes files. -/
def Quiet (m later : Monitored φ) : Prop :=
  ∃ added, later.journal = m.journal ++ added ∧
    ∀ record ∈ added, record.call.kind ≠ .list ∧ record.call.kind ≠ .remove

/-- A call that neither lists nor removes is noted as one that does not, whether it fails or not. -/
theorem Quiet.perform {call : FileCall} {measure : α → Option Nat} {action : FileAction φ α}
    (h : Quiet m later) (hlist : call.kind ≠ .list) (hremove : call.kind ≠ .remove) :
    Quiet m (FileAction.left (perform call measure action later)) := by
  obtain ⟨added, hadded, hquiet⟩ := h
  obtain ⟨outcome, hnoted⟩ : ∃ outcome,
      (FileAction.left (Monitored.perform call measure action later)).journal
        = later.journal ++ [⟨call, outcome⟩] := by
    rcases perform_ends call measure action later with
      ⟨a, next, n, heq, hnext⟩ | ⟨e, next, heq, hnext⟩ <;> rw [heq] <;> exact ⟨_, hnext⟩
  refine ⟨added ++ [⟨call, outcome⟩], by rw [hnoted, hadded, List.append_assoc], fun r hr => ?_⟩
  rcases List.mem_append.1 hr with hr | hr
  · exact hquiet r hr
  · rw [List.mem_singleton.1 hr]
    exact ⟨hlist, hremove⟩

/-- Writing is quiet. -/
theorem quiet_of_writes [FileSystem φ] {name : String} (h : Writes name m later) :
    Quiet m later := by
  induction h with
  | refl => exact ⟨[], (List.append_nil _).symm, by simp⟩
  | create _ ih => exact ih.perform nofun nofun
  | append bytes _ ih => exact ih.perform nofun nofun
  | read other offset room _ ih => exact ih.perform nofun nofun

end Monitored

/-- A cleanup failed that keeps an image: the listing failed, or the removal of another image. -/
def FailedCleanup (keep : String) (added : List FileRecord) : Prop :=
  (∃ e, ⟨.list, .error e⟩ ∈ added) ∨
    ∃ name e, LocalFile.NamesImage name ∧ LetterCase.same name keep = false ∧
      ⟨.remove name, .error e⟩ ∈ added

/-- Whether a cleanup failed is seen from the listings and the removals alone. -/
theorem FailedCleanup.congr {keep : String} {added added' : List FileRecord}
    (h : ∀ record : FileRecord, record.call.kind = .list ∨ record.call.kind = .remove →
      (record ∈ added ↔ record ∈ added')) :
    FailedCleanup keep added ↔ FailedCleanup keep added' := by
  have hlist (e : StorageError) := h ⟨.list, .error e⟩ (.inl rfl)
  have hremove (name : String) (e : StorageError) := h ⟨.remove name, .error e⟩ (.inr rfl)
  unfold FailedCleanup
  simp only [hlist, hremove]

namespace Update

variable {φ : Type} [FileSystem φ]

/-- Removing some files is noted name by name. It did not go through exactly if one of the notes is
a failure, and a failure does not keep the other names from being removed. -/
theorem removeAll_notes (names : List String) (m : Monitored φ) :
    ∃ added, (removeAll names m).2.journal = m.journal ++ added ∧
      (∀ record ∈ added, ∃ name ∈ names, record.call = .remove name) ∧
      ((removeAll names m).1 = false ↔ ∃ name e, ⟨.remove name, .error e⟩ ∈ added) := by
  induction names generalizing m with
  | nil => exact ⟨[], (List.append_nil _).symm, by simp, by simp [removeAll]⟩
  | cons name names ih =>
    have hcalls {outcome : Except StorageError (Option Nat)} {added : List FileRecord}
        (h : ∀ record ∈ added, ∃ other ∈ names, record.call = .remove other) :
        ∀ record ∈ ⟨.remove name, outcome⟩ :: added,
          ∃ other ∈ name :: names, record.call = .remove other := by
      refine List.forall_mem_cons.2 ⟨⟨name, List.mem_cons_self, rfl⟩, fun record hrecord => ?_⟩
      obtain ⟨other, hother, heq⟩ := h record hrecord
      exact ⟨other, List.mem_cons_of_mem _ hother, heq⟩
    rw [removeAll]
    rcases m.remove_ends name with ⟨a, next, n, heq, hnext⟩ | ⟨e, next, heq, hnext⟩ <;>
      obtain ⟨added, hadded, hremoves, hflag⟩ := ih next <;>
      rw [heq] <;> dsimp only <;> rw [hadded, hnext, List.append_assoc]
    · refine ⟨_, rfl, hcalls hremoves, hflag.trans ?_⟩
      simp
    · exact ⟨_, rfl, hcalls hremoves, iff_of_true rfl ⟨name, e, List.mem_cons_self⟩⟩

/-- A cleanup removes other images only, and it fails if it says so: the list could not be read, or
a removal on record was refused. -/
theorem removeOtherImages_notes {keep : String} {removed : Bool} {u w : Update (Monitored φ)}
    (h : removeOtherImages keep u = .ok removed w) :
    ∃ added, w.agent.files.journal = u.agent.files.journal ++ added ∧
      (removed = false ↔ FailedCleanup keep added) ∧
      (∀ name outcome, ⟨.remove name, outcome⟩ ∈ added →
        LocalFile.NamesImage name ∧ LetterCase.same name keep = false) ∧
      ∀ e files, FileSystem.list u.agent.files = .error e files → ⟨.list, .error e⟩ ∈ added := by
  unfold removeOtherImages at h
  rcases u.agent.files.list_ends with ⟨names, next, n, heq, hnext⟩ | ⟨e, next, heq, hnext⟩ <;>
    rw [heq] at h <;> obtain ⟨rfl, rfl⟩ := EStateM.Result.ok.inj h
  · obtain ⟨added, hadded, hremoves, hflag⟩ := removeAll_notes
      (names.filter fun name => LocalFile.isImage name && !LetterCase.same name keep) next
    have hother : ∀ name outcome, ⟨.remove name, outcome⟩ ∈ added →
        LocalFile.NamesImage name ∧ LetterCase.same name keep = false := by
      intro name outcome hmem
      obtain ⟨other, hother, hcall⟩ := hremoves _ hmem
      obtain rfl := FileCall.remove.inj hcall
      simpa [LocalFile.isImage_iff] using (List.mem_filter.1 hother).2
    have hremove (name : String) (outcome : Except StorageError (Option Nat)) :
        ⟨.remove name, outcome⟩ ∈ (⟨.list, .ok n⟩ :: added : List FileRecord)
          ↔ ⟨.remove name, outcome⟩ ∈ added := by
      simp
    have hlisted (e : StorageError) :
        ⟨.list, .error e⟩ ∉ (⟨.list, .ok n⟩ :: added : List FileRecord) := by
      intro hmem
      obtain ⟨name, -, hcall⟩ := hremoves _ ((List.mem_cons.1 hmem).resolve_left (by simp))
      cases hcall
    refine ⟨⟨.list, .ok n⟩ :: added, ?_, hflag.trans ⟨?_, ?_⟩, ?_, ?_⟩
    · exact hadded.trans (by rw [hnext, List.append_assoc]; rfl)
    · intro ⟨name, e, hmem⟩
      obtain ⟨himage, hdiffers⟩ := hother name _ hmem
      exact .inr ⟨name, e, himage, hdiffers, (hremove _ _).2 hmem⟩
    · rintro (⟨e, hmem⟩ | ⟨name, e, -, -, hmem⟩)
      · exact absurd hmem (hlisted e)
      · exact ⟨name, e, (hremove _ _).1 hmem⟩
    · exact fun name outcome hmem => hother name outcome ((hremove _ _).1 hmem)
    · intro e files herror
      cases heq.symm.trans herror
  · refine ⟨[⟨.list, .error e⟩], hnext, ?_, ?_, ?_⟩
    · exact iff_of_true rfl (.inl ⟨e, List.mem_cons_self⟩)
    · intro name outcome hmem
      cases (FileRecord.mk.inj (List.mem_singleton.1 hmem)).1
    · intro e' files herror
      obtain ⟨rfl, -⟩ := EStateM.Result.error.inj (heq.symm.trans herror)
      exact List.mem_cons_self

/-- No cleanup asks for the removal of a file that is no image. -/
theorem removeOtherImages_spares {file : String} (hfile : LocalFile.isImage file = false)
    (keep : String) (u : Update (Monitored φ)) :
    ∃ removed w added, removeOtherImages keep u = .ok removed w ∧
      w.agent.files.journal = u.agent.files.journal ++ added ∧
      ∀ outcome, ⟨.remove file, outcome⟩ ∉ added := by
  obtain ⟨removed, w, hcleanup⟩ : ∃ removed w, removeOtherImages keep u = .ok removed w :=
    ⟨_, _, rfl⟩
  obtain ⟨added, hadded, -, hremoves, -⟩ := removeOtherImages_notes hcleanup
  refine ⟨removed, w, added, hcleanup, hadded, fun outcome hmem => ?_⟩
  have himage := (LocalFile.isImage_iff file).2 (hremoves file outcome hmem).1
  exact LocalFile.ne_of_isImage himage hfile rfl

end Update

/-! ## Updates that install a version -/

namespace Update

section Cleaning

variable {φ : Type} [FileSystem φ] [FileMap φ] {config : UpdateConfig} {version : Nat}
  {stale : Bool}

/-- What is left of the files when a version was installed. -/
structure Leaves (image file : String) (stale : Bool) (before after : Contents) : Prop where
  others : ∀ name, LocalFile.isImage name = false → name ≠ file → after name = before name
  kept : ∃ content, after image = some content
  gone : stale = false → ∀ name, LocalFile.isImage name = true →
    LetterCase.same name image = false → after name = none

/-- What an installation leaves of the files: its own image and record, what is no image, and other
images only if it says so. -/
theorem leaves_of_perform {u w : Update φ} (hsound : Sound u.agent.files)
    (h : perform config u = .ok (.updated version stale) w) :
    Leaves (LocalFile.imageName config.name version) (LocalFile.recordName config.name) stale
      (contents u.agent.files) (contents w.agent.files) := by
  obtain ⟨v, v', sink, before, made, hread, hcreate, himage, hremove, hrecord⟩ := ok_of_perform h
  have hisImage := LocalFile.isImage_imageName config.name version
  have hnotImage := LocalFile.isImage_recordName config.name
  generalize LocalFile.imageName config.name version = image at *
  generalize LocalFile.recordName config.name = file at *
  have hframes := FileSink.frames_of_create hsound hread hcreate himage
  obtain ⟨removed, later, hends, hlater, hkept⟩ := removeOtherImages_ends image v hframes.sound
  obtain ⟨-, rfl⟩ := EStateM.Result.ok.inj (hends.symm.trans hremove)
  have hspares := FileMap.spares_of_writes hlater hrecord
  have hne {name : String} (hname : LocalFile.isImage name = true) : name ≠ file :=
    LocalFile.ne_of_isImage hname hnotImage
  refine ⟨fun name hname hfile => ?_, ?_, fun hstale name hname hother => ?_⟩
  · have hnot : name ≠ image := (LocalFile.ne_of_isImage hisImage hname).symm
    calc contents w.agent.files name
      _ = contents later name := hspares.others name hfile
      _ = contents v.agent.files name := hkept name (.inl hname)
      _ = contents u.agent.files name := hframes.others name hnot
  · obtain ⟨content, hcontent⟩ := hframes.present
    refine ⟨content, (hspares.others image (hne hisImage)).trans ?_⟩
    exact (hkept image (.inr (LetterCase.same_self image))).trans hcontent
  · rw [hstale] at hremove
    exact (hspares.others name (hne hname)).trans
      (removeOtherImages_removes hframes.sound hremove name hname hother)

/-- The calls of an update that installs a version: the images that it deletes are others than the
new one, and it tells whether that failed, as it does where there are too many files to be listed. -/
theorem notes_of_perform {u w : Update (Monitored φ)} (hsound : Sound u.agent.files)
    (hfew : FileMap.ListsFew φ) (h : perform config u = .ok (.updated version stale) w) :
    ∃ added, w.agent.files.journal = u.agent.files.journal ++ added ∧
      (stale = true ↔ FailedCleanup (LocalFile.imageName config.name version) added) ∧
      (∀ name outcome, ⟨.remove name, outcome⟩ ∈ added →
        LetterCase.same name (LocalFile.imageName config.name version) = false) ∧
      ∀ names : List String, names.Nodup →
        (∀ name ∈ names, name = LocalFile.imageName config.name version ∨
          (contents u.agent.files name).isSome) →
        FileSystem.maxListed < names.length → ∃ e, ⟨.list, .error e⟩ ∈ added := by
  obtain ⟨v, v', sink, before, made, hread, hcreate, himage, hremove, hrecord⟩ := ok_of_perform h
  generalize LocalFile.imageName config.name version = image at *
  have hframes := FileSink.frames_of_create hsound hread hcreate himage
  obtain ⟨first, hfirst, hquiet⟩ := Monitored.quiet_of_writes
    ((hread.trans (FileSink.ok_of_create hcreate).2).trans himage)
  obtain ⟨cleanup, hcleanup, hfailed, hothers, hlist⟩ := removeOtherImages_notes hremove
  obtain ⟨last, hlast, hquiet'⟩ := Monitored.quiet_of_writes hrecord
  -- all listings and removals are the cleanup's
  have hmem (record : FileRecord) (hkind : record.call.kind = .list ∨ record.call.kind = .remove) :
      record ∈ first ++ cleanup ++ last ↔ record ∈ cleanup := by
    have hloud {added : List FileRecord}
        (h : ∀ record ∈ added, record.call.kind ≠ .list ∧ record.call.kind ≠ .remove) :
        record ∉ added := fun hrecord => hkind.elim (h record hrecord).1 (h record hrecord).2
    simp [hloud hquiet, hloud hquiet']
  refine ⟨first ++ cleanup ++ last, ?_, ?_, fun name outcome hcall => ?_,
    fun names hdistinct hthere hmany => ?_⟩
  · rw [hlast, hcleanup, hfirst, List.append_assoc, List.append_assoc, List.append_assoc]
  · rw [FailedCleanup.congr hmem, ← hfailed, Bool.not_eq_false']
  · exact (hothers name outcome ((hmem _ (.inr rfl)).1 hcall)).2
  · have hall : ∀ name ∈ names, (contents v.agent.files name).isSome := by
      intro name hname
      by_cases heq : name = image
      · rw [heq]
        exact Option.isSome_iff_exists.2 hframes.present
      · rw [hframes.others name heq]
        exact (hthere name hname).resolve_left heq
    obtain ⟨e, files, herror⟩ :=
      (Monitored.listsFew hfew).list_fails hframes.sound hdistinct hall hmany
    exact ⟨e, (hmem _ (.inl rfl)).2 (hlist e files herror)⟩

end Cleaning

end Update

/-! ## Runs that install a version -/

namespace Agent

/-- A run that installs a version is an update that does so; where a run ends otherwise there is
nothing to be said of a cleanup. -/
theorem ok_of_run {φ : Type} [FileSystem φ] {config : UpdateConfig} {client : Client}
    {agent : Agent φ} {version : Nat} {stale : Bool} {u : Update φ}
    (h : agent.run config client = (.ok (.updated version stale), u)) :
    Update.perform config { agent, client } = .ok (.updated version stale) u := by
  rw [run_eq] at h
  generalize Update.perform config { agent, client } = result at h
  cases result with
  | error e w => cases h
  | ok outcome w =>
    cases outcome with
    | upToDate => cases h
    | updated version stale =>
      cases h
      rfl

/-- A run that installs a version keeps all files that are no images, its record apart, and it keeps
the new image. It deletes the other images, and tells whether the listing or a removal failed: if
not, all of them are gone. A listing fails if there are too many files. -/
theorem run_cleans_up {φ : Type} [FileSystem φ] [FileMap φ] (config : UpdateConfig)
    (client : Client) (agent : Agent (Monitored φ)) (hsound : Sound agent.files)
    (hfew : FileMap.ListsFew φ) {version : Nat} {stale : Bool} {u : Update (Monitored φ)}
    (hrun : agent.run config client = (.ok (.updated version stale), u)) :
    ∃ image added, LocalFile.imageFile config.name version = .ok image ∧
      u.agent.files.journal = agent.files.journal ++ added ∧
      (∀ name content, contents agent.files name = some content →
        ¬ LocalFile.NamesImage name → LocalFile.versionFile config.name ≠ .ok name →
        contents u.agent.files name = some content) ∧
      ((contents u.agent.files image).isSome ∧ ∀ outcome, ⟨.remove image, outcome⟩ ∉ added) ∧
      (stale = false → ∀ name, (contents u.agent.files name).isSome →
        LocalFile.NamesImage name → LetterCase.same name image = true) ∧
      (stale = true ↔ FailedCleanup image added) ∧
      ∀ names : List String, names.Nodup →
        (∀ name ∈ names, name = image ∨ (contents agent.files name).isSome) →
        FileSystem.maxListed < names.length → ∃ e, ⟨.list, .error e⟩ ∈ added := by
  have hperform := ok_of_run hrun
  have hleaves := Update.leaves_of_perform hsound hperform
  obtain ⟨added, hadded, hfailed, hothers, hmany⟩ := Update.notes_of_perform hsound hfew hperform
  refine ⟨_, added, LocalFile.imageFile_eq _ _, hadded, fun name content hname himage hfile => ?_,
    ⟨Option.isSome_iff_exists.2 hleaves.kept, fun outcome hcall => ?_⟩,
    fun hstale name hname himage => ?_, hfailed, hmany⟩
  · rw [← hname]
    refine hleaves.others name ?_ fun heq => hfile ?_
    · rwa [← Bool.not_eq_true, LocalFile.isImage_iff]
    · rw [heq, LocalFile.versionFile_eq]
  · have hsame := hothers _ outcome hcall
    rw [LetterCase.same_self] at hsame
    cases hsame
  · rw [← Bool.not_eq_false]
    intro hother
    rw [hleaves.gone hstale name ((LocalFile.isImage_iff name).2 himage) hother] at hname
    cases hname

/-- Two images of other versions, the first of which cannot be removed. The run says that it is
left, and a file that is no image stays. -/
theorem run_cleans_up_of_failing_removal :
    let config : UpdateConfig := { baseUrl := "http://a", name := "fw" }
    let client := { Client.new 64 with
      network := [
        some (.sending [Utf8.ofString "HTTP/1.1 200 OK\r\nContent-Length: 5\r\n\r\n5,3,2"]),
        some (.sending [Utf8.ofString "HTTP/1.1 200 OK\r\nContent-Length: 2\r\n\r\n" ++ [1, 2]])] }
    let agent : Agent (Monitored MemoryStore) :=
      { files :=
          { files :=
              { maxFiles := 6
                maxBytes := 8
                files := [("fw04.bin", [4]), ("FW05.BIN", [5]), ("a.txt", [6]), ("x.Bin", [7])] }
            fault := fun kind n => if kind = .remove ∧ n = 0 then some .readFailed else none } }
    let run := agent.run config client
    run.1 = .ok (.updated 5 true) ∧
      contents run.2.agent.files "a.txt" = some [6] ∧
      ∃ added, run.2.agent.files.journal = agent.files.journal ++ added ∧
        FailedCleanup "fw05.bin" added := by
  intro config client agent
  have hresult : (agent.run config client).1 = .ok (.updated 5 true) := by decide +kernel
  have hsound : Sound agent.files := by
    show agent.files.files.Sound
    decide +kernel
  have hcleans := run_cleans_up config client agent hsound MemoryStore.listsFew
    (Prod.ext hresult rfl)
  have hname : contents agent.files "a.txt" = some [6] := by decide +kernel
  have himage : LocalFile.imageFile config.name 5 = .ok "fw05.bin" := by decide +kernel
  have hfile : LocalFile.versionFile config.name ≠ .ok "a.txt" := by decide +kernel
  have hother : ¬ LocalFile.NamesImage "a.txt" := by
    rw [← LocalFile.isImage_iff]
    decide +kernel
  clear_value agent
  generalize agent.run config client = run at hresult hcleans ⊢
  obtain ⟨image, added, hmade, hadded, hkept, -, -, hfailed, -⟩ := hcleans
  obtain rfl := Except.ok.inj (himage.symm.trans hmade)
  exact ⟨hresult, hkept _ _ hname hother hfile, added, hadded, hfailed.1 rfl⟩

end Agent

end DeviceHttp
