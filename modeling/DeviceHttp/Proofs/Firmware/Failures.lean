import DeviceHttp.Proofs.Firmware.Installation

/-!
# Runs that install nothing

A run that fails before the record is written leaves the files as they were, or without the image of
the manifest on offer, whatever was half written under way (`Agent.run_leaves_files`). That image
may be the installed one, because a file name has room for two digits of a version only. A record
that cannot be written is lost, and so the installed version survives a failure exactly if neither
is the case (`Agent.run_keeps_installed_iff`).
-/

namespace DeviceHttp

open FileMap (Sound contents Reliable)

variable {φ : Type} [FileSystem φ] [FileMap φ]

theorem UpdateConfig.Offers.unique {config : UpdateConfig} {client : Client} {line line' : String}
    {m m' : Manifest} (h : config.Offers client line m) (h' : config.Offers client line' m') :
    m = m' := by
  obtain rfl := h.toFetches.unique h'.toFetches
  exact Except.ok.inj (h.parsed.symm.trans h'.parsed)

/-- Where a deletion does not fail, the file is not there and the others are as they were. -/
theorem Update.Lacks.contents_eq {name : String} {before : Contents} {files : φ}
    (h : Update.Lacks name before files) (hreliable : Reliable φ) :
    contents files = Function.update before name none := by
  funext other
  by_cases hother : other = name
  · rw [hother, Function.update_self, h.gone hreliable]
  · rw [Function.update_of_ne hother, h.others other hother]

namespace Agent

/-- The files of `before`, but without the image of the manifest on offer. -/
def WithoutImage (config : UpdateConfig) (client : Client) (before after : Contents) : Prop :=
  ∃ line m image, config.Offers client line m ∧
    LocalFile.imageFile config.name m.version = .ok image ∧
    after = Function.update before image none

/-- What a run does to the files, and how it ends then. The results are grouped by what they leave:
nothing changed, the image on offer gone, the record lost or a version in place. -/
theorem run_outcomes (config : UpdateConfig) (client : Client) (agent : Agent φ)
    (hreliable : Reliable φ) (hsound : Sound agent.files) :
    let run := agent.run config client
    let before := contents agent.files
    let after := contents run.2.agent.files
    (run.2.agent.platform = agent.platform ∧
      (after = before ∧
          (run.1 = .ok .upToDate ∨ (∃ e, run.1 = .error (.versionFetch e)) ∨
            run.1 = .error .malformedManifest ∨ ∃ e, run.1 = .error (.storage e)) ∨
        WithoutImage config client before after ∧ (∃ e, Update.OfImage e ∧ run.1 = .error e) ∨
        run.1 = .error .versionWrite)) ∨
    (∃ version stale, run.1 = .ok (.updated version stale)) ∨
    ∃ e, agent.platform.failure = some e ∧ run.1 = .error e := by
  obtain ⟨result, hcourse, hrun⟩ := run_course config client agent hsound
  rw [hrun]
  dsimp only
  cases hcourse with
  | unoffered none cause kept =>
    refine .inl ⟨kept.platform, .inl ⟨kept.contents, ?_⟩⟩
    rcases cause with ⟨cause, rfl⟩ | rfl
    · exact .inr (.inl ⟨cause, rfl⟩)
    · exact .inr (.inr (.inl rfl))
  | upToDate offers recorded kept events =>
    exact .inl ⟨kept.platform, .inl ⟨kept.contents, .inl rfl⟩⟩
  | @uncreated line m e w offers differs kept absent =>
    exact .inl ⟨kept.platform, .inl ⟨kept.contents, .inr (.inr (.inr ⟨e, rfl⟩))⟩⟩
  | @unverified line m e w offers differs cause platform lacks =>
    exact .inl ⟨platform, .inr (.inl ⟨⟨line, m, _, offers, LocalFile.imageFile_eq _ _,
      lacks.contents_eq hreliable⟩, e, cause, rfl⟩)⟩
  | unrecorded offers differs sound platform emptied => exact .inl ⟨platform, .inr (.inr rfl)⟩
  | @installed line m r stale w differs sound installs platform phase =>
    obtain ⟨-, ⟨hok, -⟩ | ⟨e, hfailure, herror, -⟩⟩ := ended_activate config m.version stale w
    · exact .inr (.inl ⟨_, _, hok⟩)
    · exact .inr (.inr ⟨e, platform ▸ hfailure, herror⟩)

/-- A run that ends in front of the record leaves the files as they were, or without the image of
the manifest on offer. If the image was not fetched or is not what the manifest says, there is none
of that name afterwards. No reboot is asked for. -/
theorem run_leaves_files (config : UpdateConfig) (client : Client) (agent : Agent MemoryStore)
    (hsound : agent.files.Sound)
    (hplatform : agent.platform.failure = none ∨ agent.platform.failure = some .activation) :
    let run := agent.run config client
    let before := contents agent.files
    let after := contents run.2.agent.files
    match run.1 with
    | .ok .upToDate | .error (.versionFetch _) | .error .malformedManifest =>
      after = before ∧ run.2.agent.platform.reboots = agent.platform.reboots
    | .error (.imageFetch _) | .error .integrity =>
      WithoutImage config client before after ∧
        run.2.agent.platform.reboots = agent.platform.reboots
    | .error (.storage _) =>
      (after = before ∨ WithoutImage config client before after) ∧
        run.2.agent.platform.reboots = agent.platform.reboots
    | .ok (.updated ..) | .error .versionWrite | .error .activation => True := by
  have houtcomes := run_outcomes config client agent MemoryStore.reliable hsound
  generalize agent.run config client = run at houtcomes ⊢
  dsimp only at houtcomes ⊢
  rcases houtcomes with ⟨hsame, ⟨hfiles, hresult⟩ | ⟨hremoved, e, hcause, hresult⟩ | hresult⟩ |
    ⟨version, stale, hresult⟩ | ⟨e, hfailure, hresult⟩
  · have hreboots := congrArg Platform.reboots hsame
    rcases hresult with h | ⟨e, h⟩ | h | ⟨e, h⟩ <;> rw [h]
    · exact ⟨hfiles, hreboots⟩
    · exact ⟨hfiles, hreboots⟩
    · exact ⟨hfiles, hreboots⟩
    · exact ⟨.inl hfiles, hreboots⟩
  · have hreboots := congrArg Platform.reboots hsame
    rw [hresult]
    cases e with
    | imageFetch e => exact ⟨hremoved, hreboots⟩
    | storage e => exact ⟨.inr hremoved, hreboots⟩
    | integrity => exact ⟨hremoved, hreboots⟩
    | _ => exact hcause.elim
  · rw [hresult]
    trivial
  · rw [hresult]
    trivial
  · have hactivation : e = .activation := by
      rcases hplatform with h | h
      · cases h.symm.trans hfailure
      · exact Option.some.inj (hfailure.symm.trans h)
    rw [hresult, hactivation]
    trivial

/-- The connection for the image is refused. The file that is gone then is the one of the version on
offer, which was there before. -/
theorem run_leaves_files_of_no_image :
    let config : UpdateConfig := { baseUrl := "http://a", name := "fw" }
    let client := { Client.new 64 with
      network := [
        some (.sending [Utf8.ofString "HTTP/1.1 200 OK\r\nContent-Length: 5\r\n\r\n5,0,2"])] }
    let agent : Agent MemoryStore :=
      { files := { maxFiles := 2, maxBytes := 8, files := [("fw04.bin", [1]), ("fw05.bin", [2])] } }
    let run := agent.run config client
    run.1 = .error (.imageFetch .unreachable) ∧
      WithoutImage config client (contents agent.files) (contents run.2.agent.files) := by
  intro config client agent
  have hsound : agent.files.Sound := by decide +kernel
  have hleaves := run_leaves_files config client agent hsound (.inl rfl)
  have hresult : (agent.run config client).1 = .error (.imageFetch .unreachable) := by
    decide +kernel
  generalize agent.run config client = run at hresult hleaves ⊢
  dsimp only at hleaves ⊢
  rw [hresult] at hleaves
  exact ⟨hresult, hleaves.1⟩

/-! ## What becomes of the installed version -/

/-- Where files can be read, the installed version is what stands at the front of the record. -/
theorem installedVersion_eq (hreliable : Reliable φ) (name : String) (agent : Agent φ)
    (hsound : Sound agent.files) :
    (agent.installedVersion name).1 = (contents agent.files (LocalFile.recordName name)).bind
      fun content => Manifest.leadingVersion (content.take Manifest.capacity) := by
  rw [installedVersion]
  dsimp only
  rw [Update.recordedVersion_eq hreliable name hsound]

/-- What is recorded depends on nothing but the content of the record. -/
theorem installedVersion_congr (hreliable : Reliable φ) (name : String) {agent later : Agent φ}
    (hsound : Sound agent.files) (hlater : Sound later.files)
    (hsame : contents later.files (LocalFile.recordName name)
      = contents agent.files (LocalFile.recordName name)) :
    (later.installedVersion name).1 = (agent.installedVersion name).1 := by
  rw [installedVersion_eq hreliable name later hlater, hsame,
    ← installedVersion_eq hreliable name agent hsound]

/-- There is a record where there is an installed version. -/
theorem record_ne_none (hreliable : Reliable φ) {name : String} {agent : Agent φ} {v : Nat}
    (hsound : Sound agent.files) (h : (agent.installedVersion name).1 = some v) :
    contents agent.files (LocalFile.recordName name) ≠ none := by
  intro hnone
  rw [installedVersion_eq hreliable name agent hsound, hnone] at h
  cases h

/-- There is no installed version where the record is empty. -/
theorem installedVersion_of_empty (hreliable : Reliable φ) (name : String) {agent : Agent φ}
    (hsound : Sound agent.files)
    (hempty : contents agent.files (LocalFile.recordName name) = some []) :
    (agent.installedVersion name).1 = none := by
  rw [installedVersion_eq hreliable name agent hsound, hempty]
  rfl

/-- A run that fails before a reboot is asked for keeps the installed version and its image exactly
if the record could be written and the manifest on offer does not name the file of the installed
image. -/
theorem run_keeps_installed_iff {config : UpdateConfig} {client : Client}
    {agent : Agent MemoryStore} {v : Nat} {image : String} {content : Bytes} {e : UpdateError}
    {u : Update MemoryStore} (hsound : agent.files.Sound)
    (hinstalled : (agent.installedVersion config.name).1 = some v)
    (himage : LocalFile.imageFile config.name v = .ok image)
    (hcontent : agent.files.contents? image = some content)
    (hrun : agent.run config client = (.error e, u))
    (hreboots : u.agent.platform.reboots = agent.platform.reboots) :
    ((u.agent.installedVersion config.name).1 = some v ∧
        u.agent.files.contents? image = some content) ↔
      e ≠ .versionWrite ∧
        ∀ line m, config.Offers client line m → m.version % 100 ≠ v % 100 := by
  obtain rfl : LocalFile.imageName config.name v = image :=
    Except.ok.inj ((LocalFile.imageFile_eq _ _).symm.trans himage)
  change contents agent.files (LocalFile.imageName config.name v) = some content at hcontent
  have hkeeps {w : Update MemoryStore} (hlater : Sound w.agent.files)
      (hrecord : contents w.agent.files (LocalFile.recordName config.name)
        = contents agent.files (LocalFile.recordName config.name)) :
      (w.agent.installedVersion config.name).1 = some v :=
    (installedVersion_congr MemoryStore.reliable config.name hsound hlater hrecord).trans hinstalled
  obtain ⟨result, hcourse, hend⟩ := run_course config client agent hsound
  rw [hend] at hrun
  cases hcourse with
  | unoffered none cause kept =>
    cases hrun
    refine iff_of_true ⟨hkeeps kept.sound (congrFun kept.contents _),
      (congrFun kept.contents _).trans hcontent⟩ ⟨?_, fun line m h => absurd h (none line m)⟩
    rintro rfl
    rcases cause with ⟨cause, h⟩ | h <;> cases h
  | upToDate => cases hrun
  | @uncreated line m e w offers differs kept absent =>
    cases hrun
    refine iff_of_true ⟨hkeeps kept.sound (congrFun kept.contents _),
      (congrFun kept.contents _).trans hcontent⟩ ⟨nofun, fun line' m' h hsame => ?_⟩
    -- the image is there, so its file could be emptied
    rw [← (LocalFile.imageName_eq_iff config.name).2 hsame, h.unique offers] at hcontent
    cases hcontent.symm.trans (absent MemoryStore.reliable)
  | @unverified line m e w offers differs cause platform lacks =>
    cases hrun
    by_cases hsame : m.version % 100 = v % 100
    · refine iff_of_false (fun h => ?_) fun h => h.2 line m offers hsame
      have hgone := lacks.gone MemoryStore.reliable
      rw [(LocalFile.imageName_eq_iff config.name).2 hsame] at hgone
      cases hgone.symm.trans h.2
    · have hother : LocalFile.imageName config.name v ≠ LocalFile.imageName config.name m.version :=
        fun h => hsame ((LocalFile.imageName_eq_iff config.name).1 h).symm
      refine iff_of_true ⟨hkeeps lacks.sound
        (lacks.others _ (LocalFile.recordName_ne_imageName _ _)),
        (lacks.others _ hother).trans hcontent⟩ ⟨?_, fun line' m' h => ?_⟩
      · rintro rfl
        exact cause
      · rw [h.unique offers]
        exact hsame
  | @unrecorded line m w offers differs sound platform emptied =>
    cases hrun
    refine iff_of_false (fun h => ?_) fun h => h.1 rfl
    have hempty := emptied MemoryStore.reliable
      (record_ne_none MemoryStore.reliable hsound hinstalled)
    have hnone := installedVersion_of_empty MemoryStore.reliable config.name
      (show Sound (w.inPhase .idle).agent.files from sound) hempty
    cases hnone.symm.trans h.1
  | @installed line m r stale w differs sound installs platform phase =>
    obtain ⟨-, ⟨hok, -⟩ | ⟨-, -, -, -, -, hasked⟩⟩ := ended_activate config m.version stale w
    · rw [hrun] at hok
      cases hok
    · rw [hrun, platform, hreboots] at hasked
      exact absurd hasked (Nat.succ_ne_self _).symm

/-- The connection for the image of another version is refused, and the installed one is there with
its record. -/
theorem run_keeps_installed_iff_of_refused_download :
    let config : UpdateConfig := { baseUrl := "http://a", name := "fw" }
    let client := { Client.new 64 with
      network := [
        some (.sending [Utf8.ofString "HTTP/1.1 200 OK\r\nContent-Length: 5\r\n\r\n5,0,2"])] }
    let agent : Agent MemoryStore :=
      { files :=
          { maxFiles := 3, maxBytes := 8
            files := [("fw.ver", Utf8.ofString "4,1,1"), ("fw04.bin", [1])] } }
    let u := (agent.run config client).2
    (u.agent.installedVersion "fw").1 = some 4 ∧ u.agent.files.contents? "fw04.bin" = some [1] := by
  intro config client agent
  have hsound : agent.files.Sound := by decide +kernel
  have hoffers : config.Offers client "5,0,2" ⟨5, 0, 2⟩ := by decide +kernel
  obtain ⟨hresult, hreboots⟩ :
      (agent.run config client).1 = .error (.imageFetch .unreachable) ∧
        (agent.run config client).2.agent.platform.reboots = agent.platform.reboots := by
    decide +kernel
  have hrun : agent.run config client
      = (.error (.imageFetch .unreachable), (agent.run config client).2) :=
    Prod.ext hresult rfl
  have hinstalled : (agent.installedVersion config.name).1 = some 4 := by decide +kernel
  have himage : LocalFile.imageFile config.name 4 = .ok "fw04.bin" := by decide +kernel
  have hcontent : agent.files.contents? "fw04.bin" = some [1] := by decide +kernel
  have hiff := run_keeps_installed_iff hsound hinstalled himage hcontent hrun hreboots
  refine hiff.2 ⟨nofun, fun line m h => ?_⟩
  rw [h.unique hoffers]
  decide

/-- The image of version 107 has the file of the one of version 7. That is emptied when the download
starts, and deleted when it fails. -/
theorem run_loses_installed_image :
    let config : UpdateConfig := { baseUrl := "http://updates.local/fw", name := "firmware" }
    let client := { Client.new 256 with
      network := [
        some (.sending [Utf8.ofString "HTTP/1.1 200 OK\r\nContent-Length: 7\r\n\r\n107,0,0"])] }
    let agent : Agent MemoryStore :=
      { files :=
          { maxFiles := 8, maxBytes := 1024
            files := [("firmwa.ver", Utf8.ofString "7,1,1"), ("firmwa07.bin", [1])] } }
    let run := agent.run config client
    agent.files.Sound ∧ (agent.installedVersion config.name).1 = some 7 ∧
      LocalFile.imageFile config.name 7 = .ok "firmwa07.bin" ∧
      agent.files.contents? "firmwa07.bin" = some [1] ∧
      run.1 = .error (.imageFetch .unreachable) ∧
      run.2.agent.platform.reboots = agent.platform.reboots ∧
      run.2.agent.files.contents? "firmwa07.bin" = none := by
  intro config client agent run
  decide +kernel

end Agent

end DeviceHttp
