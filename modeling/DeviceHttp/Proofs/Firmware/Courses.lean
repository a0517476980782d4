import DeviceHttp.Proofs.Firmware.Verification

/-!
# How an update can go

`Update.Course` lists the ways in which an update can end, with what each of them has done to the
files; `Update.perform_course` says that there are no others. What is claimed of updates is read off
from that list.
-/

namespace DeviceHttp

open FileMap (Sound contents Frames Reliable)

namespace Update

variable {φ : Type} [FileSystem φ] [FileMap φ] {config : UpdateConfig} {u w : Update φ}
  {line : String} {m : Manifest}

/-- Nothing was done to the files, and no reboot was asked for. -/
structure Kept (u w : Update φ) : Prop where
  sound : Sound w.agent.files
  contents : FileMap.contents w.agent.files = FileMap.contents u.agent.files
  platform : w.agent.platform = u.agent.platform

theorem Kept.of_agent_eq {v : Update φ} (h : Kept u v) (hw : w.agent = v.agent) : Kept u w :=
  ⟨hw ▸ h.sound, hw ▸ h.contents, hw ▸ h.platform⟩

/-- Files were looked at and nothing else. -/
theorem Kept.of_files {files : φ} (phase : Phase) (hsound : Sound files)
    (hsame : FileMap.contents files = FileMap.contents u.agent.files) :
    Kept u ((u.inPhase phase).withFiles files) :=
  ⟨hsound, hsame, rfl⟩

/-- The version of a manifest is in place: its image is the whole body of the response that the
download ended on, of the length and checksum that the manifest says, and the record is the line of
the manifest. -/
structure Installs (config : UpdateConfig) (client : Client) (line : String) (m : Manifest)
    (r : Reply) (files : Contents) : Prop where
  offers : config.Offers client line m
  ends : (config.manifestFetch client).client.EndsOn .get (config.address "bin") none
    config.timeout r
  image : ∃ file, LocalFile.imageFile config.name m.version = .ok file ∧
    files file = some r.content
  verified : Verified config.checksum m r.content
  record : ∃ file, LocalFile.versionFile config.name = .ok file ∧
    files file = some (Utf8.encode (Blank.trim line.toList))

/-- The ways in which an update ends. -/
inductive Course (config : UpdateConfig) (u : Update φ) :
    EStateM.Result UpdateError (Update φ) UpdateOutcome → Prop
  /-- There is no manifest. -/
  | unoffered {e : UpdateError} {w : Update φ} (none : ∀ line m, ¬ config.Offers u.client line m)
    (cause : (∃ cause, e = .versionFetch cause) ∨ e = .malformedManifest) (kept : Kept u w) :
    Course config u (.error e w)
  /-- The version that is offered is the one that is recorded. -/
  | upToDate {line : String} {m : Manifest} {w : Update φ} (offers : config.Offers u.client line m)
    (recorded : (recordedVersion config.name u.agent.files).1 = some m.version) (kept : Kept u w)
    (events : w.events = u.events ++ (config.manifestFetch u.client).events) :
    Course config u (.ok .upToDate w)
  /-- There is no file for the image. -/
  | uncreated {line : String} {m : Manifest} {e : StorageError} {w : Update φ}
    (offers : config.Offers u.client line m)
    (differs : (recordedVersion config.name u.agent.files).1 ≠ some m.version) (kept : Kept u w)
    (absent : Reliable φ →
      contents u.agent.files (LocalFile.imageName config.name m.version) = none) :
    Course config u (.error (.storage e) w)
  /-- The image did not come whole, or it failed the check. -/
  | unverified {line : String} {m : Manifest} {e : UpdateError} {w : Update φ}
    (offers : config.Offers u.client line m)
    (differs : (recordedVersion config.name u.agent.files).1 ≠ some m.version) (cause : OfImage e)
    (platform : w.agent.platform = u.agent.platform)
    (lacks : Lacks (LocalFile.imageName config.name m.version) (contents u.agent.files)
      w.agent.files) :
    Course config u (.error e w)
  /-- The image is there, and its version could not be recorded. -/
  | unrecorded {line : String} {m : Manifest} {w : Update φ}
    (offers : config.Offers u.client line m)
    (differs : (recordedVersion config.name u.agent.files).1 ≠ some m.version)
    (sound : Sound w.agent.files) (platform : w.agent.platform = u.agent.platform)
    (emptied : Reliable φ → contents u.agent.files (LocalFile.recordName config.name) ≠ none →
      contents w.agent.files (LocalFile.recordName config.name) = some []) :
    Course config u (.error .versionWrite w)
  /-- The version is installed, and started if it is to be. -/
  | installed {line : String} {m : Manifest} {r : Reply} {stale : Bool} {w : Update φ}
    (differs : (recordedVersion config.name u.agent.files).1 ≠ some m.version)
    (sound : Sound w.agent.files)
    (installs : Installs config u.client line m r (contents w.agent.files))
    (platform : w.agent.platform = u.agent.platform) (phase : w.agent.phase = .installed) :
    Course config u (activate config (.updated m.version stale) w)

/-- The image of a manifest is there whole and checked, or there is none behind the failure, if it
could be deleted. -/
theorem fetchImage_ends (image : String) {t : Transaction Unit} (hsound : Sound u.agent.files)
    (hfits : Utf8.fits Url.textCapacity (config.address "bin") = true)
    (ht : u.client.get (config.address "bin") config.timeout = t) :
    (∃ e w, fetchImage config image m u = .error (.storage e) w ∧ Kept u w ∧
      (Reliable φ → contents u.agent.files image = none)) ∨
    (∃ e w, fetchImage config image m u = .error e w ∧ OfImage e ∧
      w.agent.platform = u.agent.platform ∧ Lacks image (contents u.agent.files) w.agent.files) ∨
    ∃ w, fetchImage config image m u = .ok () w ∧ w.agent.platform = u.agent.platform ∧
      Frames image (contents u.agent.files) w.agent.files ∧ t.result = .ok () ∧
      contents w.agent.files image = some (Delivery.written t.deliveries) ∧
      Verified config.checksum m (Delivery.written t.deliveries) := by
  subst ht
  have hurl : require ((resourceUrl config "bin").mapError .imageFetch) u
      = .ok (config.address "bin") u := by
    rw [resourceUrl_of_fits hfits]
    rfl
  obtain ⟨files, hfiles, ⟨sink, hcreate, rfl, hcreated⟩ | ⟨e, hcreate, hsame⟩⟩ :=
    onFiles_ends (u := u) (FileSink.keeps_create image hsound)
  · have hframes : Frames sink.name (contents u.agent.files) files :=
      ⟨hfiles, fun other hother => by rw [hcreated, Function.update_of_ne hother], [],
        by rw [hcreated, Function.update_self]⟩
    obtain ⟨w, hframes, hplatform, ⟨e, hdownload, hcause⟩ | ⟨hdownload, hresult, hbody⟩⟩ :=
      download_ends (u := u.withFiles files) config (config.address "bin") hframes
    · obtain ⟨later, hdiscard, hlacks⟩ := orDiscard_of_error hdownload hframes
      refine .inr (.inl ⟨e, w.withFiles later, ?_, hcause, hplatform, hlacks⟩)
      rw [fetchImage, bind_of_ok hurl, bind_of_ok hcreate]
      exact bind_of_error hdiscard
    · obtain ⟨later, hlater, hsame,
          ⟨content, hverify, hcontent, hverified⟩ | ⟨e, hverify, hcause⟩⟩ :=
        verify_ends (u := w.inPhase .verifying) sink.name config.checksum hframes.sound
      · obtain rfl : _ = content := Option.some.inj (hbody.symm.trans hcontent)
        refine .inr (.inr ⟨(w.inPhase .verifying).withFiles later, ?_, hplatform,
          hframes.of_same hlater hsame, hresult, ?_, hverified⟩)
        · rw [fetchImage, bind_of_ok hurl, bind_of_ok hcreate]
          refine (bind_of_ok (orDiscard_of_ok hdownload)).trans ?_
          exact (bind_of_ok (enter_ok .verifying w)).trans (orDiscard_of_ok hverify)
        · exact (congrFun hsame sink.name).trans hbody
      · obtain ⟨last, hdiscard, hlacks⟩ :=
          orDiscard_of_error hverify (hframes.of_same hlater hsame)
        refine .inr (.inl ⟨e, ((w.inPhase .verifying).withFiles later).withFiles last, ?_, hcause,
          hplatform, hlacks⟩)
        rw [fetchImage, bind_of_ok hurl, bind_of_ok hcreate]
        refine (bind_of_ok (orDiscard_of_ok hdownload)).trans ?_
        exact (bind_of_ok (enter_ok .verifying w)).trans hdiscard
  · refine .inl ⟨e, u.withFiles files, ?_, ⟨hfiles, hsame, rfl⟩, fun hreliable => ?_⟩
    · rw [fetchImage, bind_of_ok hurl, bind_of_ok hcreate]
      rfl
    · rw [← Option.not_isSome_iff_eq_none, Option.isSome_iff_exists]
      rintro ⟨content, hcontent⟩
      obtain ⟨sink, later, hsink⟩ := FileSink.exists_create hreliable hsound hcontent
      rw [onFiles, hsink] at hcreate
      cases hcreate

/-- An update that goes by the manifest on offer installs it or fails. The cases are the step at
which it fails, each with what it leaves of the files. -/
theorem install_course {v : Update φ} (hoffers : config.Offers u.client line m)
    (hdiffers : (recordedVersion config.name u.agent.files).1 ≠ some m.version) (hkept : Kept u v)
    (hclient : v.client = (config.manifestFetch u.client).client) :
    Course config u (install config (LocalFile.recordName config.name) line m v) := by
  rw [install, bind_of_ok (enter_ok .downloading v), LocalFile.imageFile_eq,
    bind_of_ok (require_ok _ _)]
  rcases fetchImage_ends (u := v.inPhase .downloading) (LocalFile.imageName config.name m.version)
    hkept.sound hoffers.image_fits
    (congrArg (Client.get (config.address "bin") config.timeout) hclient) with
    ⟨e, w, hfetch, hlate, habsent⟩ | ⟨e, w, hfetch, hcause, hplatform, hlacks⟩ |
    ⟨w, hfetch, hplatform, hframes, hresult, himage, hverified⟩
  · rw [bind_of_error hfetch]
    exact .uncreated hoffers hdiffers ⟨hlate.sound, hlate.contents.trans hkept.contents,
      hlate.platform.trans hkept.platform⟩ (hkept.contents ▸ habsent)
  · rw [bind_of_error hfetch]
    exact .unverified hoffers hdiffers hcause (hplatform.trans hkept.platform)
      (hkept.contents ▸ hlacks)
  · rw [bind_of_ok hfetch]
    obtain ⟨removed, files, hremove, hfiles, hkeeps⟩ :=
      removeOtherImages_ends (LocalFile.imageName config.name m.version) w hframes.sound
    rw [bind_of_ok hremove]
    obtain ⟨last, hlast, hothers, ⟨hrecord, hline⟩ | ⟨hrecord, hemptied⟩⟩ :=
      record_ends (u := w.withFiles files) (LocalFile.recordName config.name)
        (String.ofList (Blank.trim line.toList)) hfiles
    · rw [bind_of_ok hrecord, bind_of_ok (enter_ok .installed _)]
      obtain ⟨r, hends, hbody⟩ := Client.endsOn_of_ok hresult
      have himage : contents last (LocalFile.imageName config.name m.version) = some r.content :=
        calc contents last _
            = contents files _ := hothers _ (LocalFile.recordName_ne_imageName _ _).symm
          _ = contents w.agent.files _ := hkeeps _ (.inr (LetterCase.same_self _))
          _ = _ := himage.trans (congrArg some hbody)
      rw [Utf8.ofString_ofList] at hline
      exact .installed (w := ((w.withFiles files).withFiles last).inPhase .installed) hdiffers hlast
        ⟨hoffers, hends, ⟨_, LocalFile.imageFile_eq _ _, himage⟩, hbody ▸ hverified,
          ⟨_, LocalFile.versionFile_eq _, hline⟩⟩
        (hplatform.trans hkept.platform) rfl
    · rw [bind_of_error hrecord]
      refine .unrecorded hoffers hdiffers hlast (hplatform.trans hkept.platform)
        fun hreliable hrecorded => hemptied hreliable ?_
      have hbefore : contents files (LocalFile.recordName config.name)
          = contents u.agent.files (LocalFile.recordName config.name) :=
        calc contents files _
            = contents w.agent.files _ := hkeeps _ (.inl (LocalFile.isImage_recordName _))
          _ = contents v.agent.files _ :=
            hframes.others _ (LocalFile.recordName_ne_imageName _ _)
          _ = _ := congrFun hkept.contents _
      exact fun hnone => hrecorded (hbefore.symm.trans hnone)

/-- An update takes one of the courses. What follows from a run is proved by going through them,
without opening the steps again. -/
theorem perform_course (config : UpdateConfig) (u : Update φ) (hsound : Sound u.agent.files) :
    Course config u (perform config u) := by
  obtain ⟨hfound, hsame⟩ := recordedVersion_keeps config.name hsound
  have hlook : installedVersion config.name (u.inPhase .checking)
      = .ok (recordedVersion config.name u.agent.files).1
        ((u.inPhase .checking).withFiles (recordedVersion config.name u.agent.files).2) := rfl
  rw [perform, bind_of_ok (enter_ok .checking u), LocalFile.versionFile_eq,
    bind_of_ok (require_ok _ _), bind_of_ok hlook]
  have hstart := Kept.of_files .checking hfound hsame
  generalize hv : (u.inPhase .checking).withFiles (recordedVersion config.name u.agent.files).2 = v
    at hstart ⊢
  have hclient : v.client = u.client := by rw [← hv]; rfl
  have hevents : v.events = u.events := by rw [← hv]; rfl
  rcases fetchManifest_ends config v with ⟨line, hline, hfetch⟩ |
    ⟨hnone, e, w, hfetch, hagent, hcause⟩
  · rw [hclient] at hline hfetch
    rw [bind_of_ok hfetch]
    have hkept : Kept u (v.fetched (config.manifestFetch u.client)) := hstart.of_agent_eq rfl
    cases hparse : Manifest.parse line with
    | error e =>
      refine .unoffered (fun other m h => ?_)
        (.inr (Manifest.eq_malformedManifest_of_parse hparse)) hkept
      rw [← hline.unique h.toFetches] at h
      cases hparse.symm.trans h.parsed
    | ok m =>
      rw [bind_of_ok (require_ok _ _)]
      by_cases hsame : (recordedVersion config.name u.agent.files).1 = some m.version
      · rw [if_pos hsame]
        exact .upToDate ⟨hline, hparse⟩ hsame hkept (hevents ▸ rfl)
      · rw [if_neg hsame]
        exact install_course ⟨hline, hparse⟩ hsame hkept rfl
  · rw [bind_of_error hfetch]
    exact .unoffered (fun line m h => hnone line (hclient ▸ h.toFetches)) hcause
      (hstart.of_agent_eq hagent)

end Update

end DeviceHttp
