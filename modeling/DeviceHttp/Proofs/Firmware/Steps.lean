import DeviceHttp.Firmware.Agent
import DeviceHttp.Proofs.Firmware.Names
import DeviceHttp.Proofs.Storage.FileBodies

/-!
# The steps of an update

Each step of an update has one theorem that says how it can end and what it does to the files, as a
map from names to contents. A call on the files may fail at any step; nothing here assumes that one
succeeds. `UpdateConfig.Offers` is what an update goes by: a manifest that the server offers, as far
as it is read.
-/

namespace DeviceHttp

open FileMap (Sound contents Frames Reliable)

/-! ## What is fetched -/

namespace UpdateConfig

variable {config : UpdateConfig} {client : Client} {line line' : String}

/-- The URL of a resource, whether or not it is short enough. -/
def address (config : UpdateConfig) (extension : String) : String :=
  config.baseUrl ++ "/" ++ config.name ++ "." ++ extension

/-- The transaction that fetches the manifest. -/
def manifestFetch (config : UpdateConfig) (client : Client) : Transaction Unit :=
  client.get (config.address "txt") config.timeout

/-- The transaction that fetches the image, behind that for the manifest. -/
def imageFetch (config : UpdateConfig) (client : Client) : Transaction Unit :=
  (config.manifestFetch client).client.get (config.address "bin") config.timeout

/-- The text that is fetched for a manifest: the front of a body that came whole. -/
structure Fetches (config : UpdateConfig) (client : Client) (line : String) : Prop where
  fits : Utf8.fits Url.textCapacity (config.address "txt") = true
  result : (config.manifestFetch client).result = .ok ()
  text : Utf8.ofString line
    = (Delivery.written (config.manifestFetch client).deliveries).take Manifest.capacity

/-- The manifest that the server offers, and its line. -/
structure Offers (config : UpdateConfig) (client : Client) (line : String) (m : Manifest) : Prop
    extends config.Fetches client line where
  parsed : Manifest.parse line = .ok m

instance (config : UpdateConfig) (client : Client) (line : String) (m : Manifest) :
    Decidable (config.Offers client line m) :=
  decidable_of_iff
    (Utf8.fits Url.textCapacity (config.address "txt") = true ∧
      (config.manifestFetch client).result = .ok () ∧
      Utf8.ofString line
        = (Delivery.written (config.manifestFetch client).deliveries).take Manifest.capacity ∧
      Manifest.parse line = .ok m)
    ⟨fun ⟨fits, result, text, parsed⟩ => ⟨⟨fits, result, text⟩, parsed⟩,
      fun h => ⟨h.fits, h.result, h.text, h.parsed⟩⟩

theorem Fetches.unique (h : config.Fetches client line) (h' : config.Fetches client line') :
    line = line' :=
  Utf8.ofString_injective (h.text.trans h'.text.symm)

/-- The URL of the image is as long as the one of the manifest. -/
theorem Fetches.image_fits (h : config.Fetches client line) :
    Utf8.fits Url.textCapacity (config.address "bin") = true := by
  have hlength : (config.address "bin").utf8ByteSize = (config.address "txt").utf8ByteSize := by
    simp only [address, String.utf8ByteSize_append]
    rfl
  rw [Utf8.fits, hlength]
  exact h.fits

theorem Fetches.length_le (h : config.Fetches client line) :
    (Utf8.ofString line).length ≤ Manifest.capacity := by
  rw [h.text]
  exact List.length_take_le _ _

end UpdateConfig

namespace Update

variable {φ α β : Type} {u w : Update φ}

theorem bind_of_ok {x : Action φ α} {f : α → Action φ β} {a : α} (h : x u = .ok a w) :
    (x >>= f) u = f a w := by
  change EStateM.bind x f u = f a w
  rw [EStateM.bind, h]

theorem bind_of_error {x : Action φ α} {f : α → Action φ β} {e : UpdateError}
    (h : x u = .error e w) : (x >>= f) u = .error e w := by
  change EStateM.bind x f u = .error e w
  rw [EStateM.bind, h]

/-- A chain that succeeds has two steps that succeed. -/
theorem ok_of_bind {x : Action φ α} {f : α → Action φ β} {b : β} (h : (x >>= f) u = .ok b w) :
    ∃ a v, x u = .ok a v ∧ f a v = .ok b w := by
  cases hx : x u with
  | ok a v => exact ⟨a, v, rfl, (bind_of_ok hx).symm.trans h⟩
  | error e v => cases (bind_of_error hx).symm.trans h

theorem require_ok (a : α) (u : Update φ) : require (.ok a) u = .ok a u := rfl

theorem ok_of_require {r : Except UpdateError α} {a : α} (h : require r u = .ok a w) :
    r = .ok a ∧ w = u := by
  cases r with
  | ok b =>
    obtain ⟨rfl, rfl⟩ := EStateM.Result.ok.inj h
    exact ⟨rfl, rfl⟩
  | error e => cases h

/-- The update with other files. -/
def withFiles (files : φ) (u : Update φ) : Update φ :=
  { u with agent := { u.agent with files } }

/-- The update in another phase. -/
def inPhase (phase : Phase) (u : Update φ) : Update φ :=
  { u with agent := { u.agent with phase } }

theorem enter_ok (phase : Phase) (u : Update φ) : enter phase u = .ok () (u.inPhase phase) := rfl

/-- The update after a transaction. -/
def fetched (t : Transaction α) (u : Update φ) : Update φ :=
  { u with client := t.client, events := u.events ++ t.events }

@[simp] theorem files_withFiles (files : φ) (u : Update φ) :
    (u.withFiles files).agent.files = files := rfl

@[simp] theorem platform_withFiles (files : φ) (u : Update φ) :
    (u.withFiles files).agent.platform = u.agent.platform := rfl

@[simp] theorem client_withFiles (files : φ) (u : Update φ) :
    (u.withFiles files).client = u.client := rfl

@[simp] theorem events_withFiles (files : φ) (u : Update φ) :
    (u.withFiles files).events = u.events := rfl

@[simp] theorem files_inPhase (phase : Phase) (u : Update φ) :
    (u.inPhase phase).agent.files = u.agent.files := rfl

@[simp] theorem platform_inPhase (phase : Phase) (u : Update φ) :
    (u.inPhase phase).agent.platform = u.agent.platform := rfl

@[simp] theorem client_inPhase (phase : Phase) (u : Update φ) :
    (u.inPhase phase).client = u.client := rfl

@[simp] theorem events_inPhase (phase : Phase) (u : Update φ) :
    (u.inPhase phase).events = u.events := rfl

@[simp] theorem agent_fetched (t : Transaction α) (u : Update φ) :
    (u.fetched t).agent = u.agent := rfl

@[simp] theorem events_fetched (t : Transaction α) (u : Update φ) :
    (u.fetched t).events = u.events ++ t.events := rfl

/-! ## Fetching the manifest -/

section Manifest

variable {config : UpdateConfig}

theorem resourceUrl_of_fits {extension : String}
    (h : Utf8.fits Url.textCapacity (config.address extension) = true) :
    resourceUrl config extension = .ok (config.address extension) :=
  if_pos h

theorem resourceUrl_of_not_fits {extension : String}
    (h : ¬ Utf8.fits Url.textCapacity (config.address extension) = true) :
    resourceUrl config extension = .error .malformedUrl :=
  if_neg h

/-- The manifest as it is fetched, for an address that is not too long: the first bytes of the body
are kept, and are text or the fetch fails. Neither reads or writes a file. -/
theorem fetchManifest_of_fits (u : Update φ)
    (h : Utf8.fits Url.textCapacity (config.address "txt") = true) :
    let got := u.client.getText (config.address "txt") (List.replicate Manifest.capacity 0)
      Manifest.capacity config.timeout
    fetchManifest config u =
      match got.1.result with
      | .error e => .error (.versionFetch e) (u.fetched got.1)
      | .ok n =>
        match Utf8.toString? (got.2.take n) with
        | some line => .ok line (u.fetched got.1)
        | none => .error .malformedManifest (u.fetched got.1) := by
  intro got
  have hurl : require ((resourceUrl config "txt").mapError .versionFetch) u
      = .ok (config.address "txt") u := by
    rw [resourceUrl_of_fits h]
    rfl
  rw [fetchManifest, bind_of_ok hurl]
  change (require (got.1.result.mapError .versionFetch) >>= fun n =>
    match Utf8.toString? (got.2.take n) with
    | some line => pure line
    | none => throw .malformedManifest) (u.fetched got.1) = _
  cases got.1.result with
  | error e => rfl
  | ok n =>
    rw [Except.mapError, bind_of_ok (require_ok n _)]
    dsimp only
    cases Utf8.toString? (got.2.take n) <;> rfl

/-- Of a body that came whole, the front is taken if it is text. -/
theorem fetchManifest_of_ok (u : Update φ)
    (hfits : Utf8.fits Url.textCapacity (config.address "txt") = true)
    (hresult : (config.manifestFetch u.client).result = .ok ()) :
    fetchManifest config u =
      match Utf8.toString? ((Delivery.written (config.manifestFetch u.client).deliveries).take
        Manifest.capacity) with
      | some line => .ok line (u.fetched (config.manifestFetch u.client))
      | none => .error .malformedManifest (u.fetched (config.manifestFetch u.client)) := by
  rw [fetchManifest_of_fits u hfits]
  obtain ⟨hclient, hevents, -, hok⟩ := u.client.getText_takes (config.address "txt")
    (List.replicate Manifest.capacity 0) Manifest.capacity config.timeout
  generalize u.client.getText _ _ _ _ = got at *
  have hfetched : u.fetched got.1 = u.fetched (config.manifestFetch u.client) := by
    rw [fetched, hclient, hevents]
    rfl
  obtain ⟨n, hn, htake⟩ := hok hresult
  rw [List.length_replicate, Nat.min_self] at htake
  rw [hn, hfetched]
  dsimp only
  rw [htake]
  rfl

/-- A text is fetched, or there is none; where there is none the agent is as it was, and the error
says why. -/
theorem fetchManifest_ends (config : UpdateConfig) (u : Update φ) :
    (∃ line, config.Fetches u.client line ∧
      fetchManifest config u = .ok line (u.fetched (config.manifestFetch u.client))) ∨
    (∀ line, ¬ config.Fetches u.client line) ∧
      ∃ e w, fetchManifest config u = .error e w ∧ w.agent = u.agent ∧
        ((∃ cause, e = .versionFetch cause) ∨ e = .malformedManifest) := by
  by_cases hfits : Utf8.fits Url.textCapacity (config.address "txt") = true
  · cases hresult : (config.manifestFetch u.client).result with
    | error e =>
      obtain ⟨-, -, herror, -⟩ := u.client.getText_takes (config.address "txt")
        (List.replicate Manifest.capacity 0) Manifest.capacity config.timeout
      rw [fetchManifest_of_fits u hfits, herror e hresult]
      refine .inr ⟨fun line hline => ?_, _, _, rfl, rfl, .inl ⟨e, rfl⟩⟩
      cases hline.result.symm.trans hresult
    | ok done =>
      rw [fetchManifest_of_ok u hfits hresult]
      cases htext : Utf8.toString? _ with
      | some line => exact .inl ⟨line, ⟨hfits, hresult,
          (Utf8.toString?_eq_some_iff.1 htext).symm⟩, rfl⟩
      | none =>
        refine .inr ⟨fun line hline => ?_, _, _, rfl, rfl, .inr rfl⟩
        cases htext.symm.trans (Utf8.toString?_eq_some_iff.2 hline.text.symm)
  · refine .inr ⟨fun line hline => hfits hline.fits, _, u, ?_, rfl, .inl ⟨.malformedUrl, rfl⟩⟩
    rw [fetchManifest, resourceUrl_of_not_fits hfits]
    rfl

end Manifest

/-! ## Starting a version -/

/-- The end of an update that installs a version. -/
def activate (config : UpdateConfig) (outcome : UpdateOutcome) : Action φ UpdateOutcome := do
  if config.reboot = .auto then reboot
  pure outcome

/-- A reboot is asked for once if it is to be, and nothing else is done. -/
theorem activate_ends (config : UpdateConfig) (outcome : UpdateOutcome) (u : Update φ) :
    config.reboot = .manual ∧ activate config outcome u = .ok outcome u ∨
    config.reboot = .auto ∧
      ∃ w, w.agent.files = u.agent.files ∧ w.agent.phase = u.agent.phase ∧
        w.agent.platform.reboots = u.agent.platform.reboots + 1 ∧
        (activate config outcome u = .ok outcome w ∨
          ∃ e, u.agent.platform.failure = some e ∧ activate config outcome u = .error e w) := by
  unfold activate
  cases hreboot : config.reboot with
  | manual => exact .inl ⟨rfl, rfl⟩
  | auto =>
    refine .inr ⟨rfl, { u with agent.platform.reboots := u.agent.platform.reboots + 1 }, rfl, rfl,
      rfl, ?_⟩
    rw [if_pos rfl]
    cases hfailure : u.agent.platform.failure with
    | none =>
      refine .inl ?_
      rw [bind_of_ok (a := ()) (by rw [reboot, hfailure])]
      rfl
    | some e =>
      refine .inr ⟨e, rfl, bind_of_error ?_⟩
      rw [reboot, hfailure]

/-! ## Steps on the files -/

variable [FileSystem φ]

/-- A download is one transaction of the client with the file as its sink. What the sink came to is
looked at only if the transaction succeeds. -/
theorem download_eq (config : UpdateConfig) (url : String) (sink : FileSink) (u : Update φ) :
    let t := u.client.get url config.timeout
    let w := (u.fetched t).withFiles (t.into (u.agent.files, sink)).1
    download config url sink u =
      match t.result, (t.into (u.agent.files, sink)).2.error with
      | .error e, _ => .error (.imageFetch e) w
      | .ok _, some e => .error (.storage e) w
      | .ok _, none => .ok () w :=
  rfl

theorem orDiscard_of_ok {image : String} {action : Action φ Unit} (h : action u = .ok () w) :
    orDiscard image action u = .ok () w := by
  rw [orDiscard, h]

variable [FileMap φ]

/-- A call on the files fails as a result. -/
theorem onFiles_ends {action : FileAction φ α} {after : α → Contents → Prop}
    (h : FileAction.Keeps Sound contents (contents u.agent.files) after (action u.agent.files)) :
    ∃ files, Sound files ∧
      ((∃ a, onFiles action u = .ok (.ok a) (u.withFiles files) ∧ after a (contents files)) ∨
        ∃ e, onFiles action u = .ok (.error e) (u.withFiles files) ∧
          contents files = contents u.agent.files) := by
  unfold onFiles
  generalize action u.agent.files = result at h ⊢
  cases h with
  | @ok a files sound done => exact ⟨files, sound, .inl ⟨a, rfl, done⟩⟩
  | @error e files sound same => exact ⟨files, sound, .inr ⟨e, rfl, same⟩⟩

/-- Looking a version up changes nothing. -/
theorem recordedVersion_keeps (name : String) {files : φ} (hsound : Sound files) :
    Sound (recordedVersion name files).2 ∧
      contents (recordedVersion name files).2 = contents files := by
  have hread := FileMap.read (LocalFile.recordName name) 0 Manifest.capacity hsound
  rw [recordedVersion, LocalFile.versionFile_eq]
  dsimp only
  generalize FileSystem.read _ _ _ files = result at hread ⊢
  cases hread with
  | ok sound done => exact ⟨sound, done.1⟩
  | error sound same => exact ⟨sound, same⟩

/-- Where files can be read, the recorded version is what stands at the front of the record, as far
as a manifest may go. -/
theorem recordedVersion_eq (hreliable : Reliable φ) (name : String) {files : φ}
    (hsound : Sound files) :
    (recordedVersion name files).1 = (contents files (LocalFile.recordName name)).bind
      fun content => Manifest.leadingVersion (content.take Manifest.capacity) := by
  have hread := FileMap.read (LocalFile.recordName name) 0 Manifest.capacity hsound
  rw [recordedVersion, LocalFile.versionFile_eq]
  dsimp only
  cases hcontent : contents files (LocalFile.recordName name) with
  | none =>
    generalize FileSystem.read _ _ _ files = result at hread ⊢
    cases hread with
    | ok sound done =>
      obtain ⟨-, content, hsome, -⟩ := done
      cases hcontent.symm.trans hsome
    | error sound same => rfl
  | some content =>
    obtain ⟨later, hlater⟩ := hreliable.read 0 Manifest.capacity hsound hcontent
    rw [hlater]
    rfl

/-- The causes for which an image is not installed. -/
def OfImage : UpdateError → Prop
  | .imageFetch _ | .storage _ | .integrity => True
  | _ => False

/-- A download touches no file but its own. If it succeeds, that holds the body of the response; if
it fails, what it holds is not said. -/
theorem download_ends {before : Contents} {sink : FileSink} (config : UpdateConfig) (url : String)
    (h : Frames sink.name before u.agent.files) :
    ∃ w, Frames sink.name before w.agent.files ∧ w.agent.platform = u.agent.platform ∧
      ((∃ e, download config url sink u = .error e w ∧ OfImage e) ∨
        download config url sink u = .ok () w ∧
          (u.client.get url config.timeout).result = .ok () ∧
          contents w.agent.files sink.name
            = some (Delivery.written (u.client.get url config.timeout).deliveries)) := by
  obtain ⟨calls, hcalls, hhanded⟩ := u.client.handover_execute .get url none config.timeout
  rw [← Client.get] at hcalls hhanded
  rw [download_eq]
  generalize u.client.get url config.timeout = t at *
  have hframes : Frames sink.name before (t.into (u.agent.files, sink)).1 :=
    FileSink.frames_acceptAll (w := (u.agent.files, sink)) h _
  refine ⟨(u.fetched t).withFiles (t.into (u.agent.files, sink)).1, hframes, rfl, ?_⟩
  cases hresult : t.result with
  | error e => exact .inl ⟨.imageFetch e, rfl, trivial⟩
  | ok done =>
    cases herror : (t.into (u.agent.files, sink)).2.error with
    | some e => exact .inl ⟨.storage e, rfl, trivial⟩
    | none =>
      refine .inr ⟨rfl, rfl, ?_⟩
      rcases hhanded with ⟨-, e, he⟩ | hhanded
      · cases hresult.symm.trans he
      · rw [Transaction.into, hcalls] at herror
        have hcontents := FileSink.contents_of_handover hhanded h.sound herror
        rw [hcalls]
        change contents (t.into (u.agent.files, sink)).1 sink.name = some (Delivery.written calls)
        rw [Transaction.into, hcalls]
        exact hcontents

/-! ## Deleting -/

/-- Files among which there is none of this name, beside others that are as they were. Where a
deletion can fail, it may still be there. -/
structure Lacks (name : String) (before : Contents) (files : φ) : Prop where
  sound : Sound files
  others : ∀ other, other ≠ name → contents files other = before other
  gone : Reliable φ → contents files name = none

/-- An image is deleted behind a step that fails, and the failure stays the one of the step, whether
or not it could be deleted. -/
theorem orDiscard_of_error {image : String} {before : Contents} {action : Action φ Unit}
    {e : UpdateError} (h : action u = .error e w) (hframes : Frames image before w.agent.files) :
    ∃ files, orDiscard image action u = .error e (w.withFiles files) ∧
      Lacks image before files := by
  obtain ⟨content, hcontent⟩ := hframes.present
  have hremove := FileMap.remove image hframes.sound
  have hreliable (hreliable : Reliable φ) := hreliable.remove hframes.sound hcontent
  rw [orDiscard, h]
  dsimp only [onFiles]
  generalize FileSystem.remove image w.agent.files = result at *
  cases hremove with
  | @ok _ files sound done =>
    refine ⟨files, rfl, sound, fun other hother => ?_, fun _ => ?_⟩
    · rw [done, Function.update_of_ne hother]
      exact hframes.others other hother
    · rw [done, Function.update_self]
  | @error e files sound same =>
    refine ⟨files, rfl, sound, fun other hother => ?_, fun h => ?_⟩
    · rw [same]
      exact hframes.others other hother
    · obtain ⟨later, hlater⟩ := hreliable h
      cases hlater

/-- Each file that is to be deleted is deleted or left, and no other one is touched, also behind a
deletion that fails. -/
theorem removeAll_keeps (names : List String) {files : φ} (hsound : Sound files) :
    Sound (removeAll names files).2 ∧
      ∀ other, other ∉ names → contents (removeAll names files).2 other = contents files other := by
  induction names generalizing files with
  | nil => exact ⟨hsound, fun _ _ => rfl⟩
  | cons name names ih =>
    have hremove := FileMap.remove name hsound
    rw [removeAll]
    generalize FileSystem.remove name files = result at hremove ⊢
    cases hremove with
    | ok sound done =>
      obtain ⟨hlater, hkept⟩ := ih sound
      refine ⟨hlater, fun other hother => ?_⟩
      rw [List.mem_cons, not_or] at hother
      rw [hkept other hother.2, done, Function.update_of_ne hother.1]
    | error sound same =>
      obtain ⟨hlater, hkept⟩ := ih sound
      refine ⟨hlater, fun other hother => ?_⟩
      rw [List.mem_cons, not_or] at hother
      rw [← same]
      exact hkept other hother.2

/-- What is no image is kept, and so is the image that is to be kept. The cleanup never fails the
update. -/
theorem removeOtherImages_ends (keep : String) (u : Update φ) (hsound : Sound u.agent.files) :
    ∃ removed files, removeOtherImages keep u = .ok removed (u.withFiles files) ∧ Sound files ∧
      ∀ name, LocalFile.isImage name = false ∨ LetterCase.same name keep = true →
        contents files name = contents u.agent.files name := by
  have hlist := FileMap.list hsound
  unfold removeOtherImages
  generalize FileSystem.list u.agent.files = result at hlist ⊢
  cases hlist with
  | error sound same => exact ⟨_, _, rfl, sound, fun name _ => congrFun same name⟩
  | @ok names files sound done =>
    obtain ⟨hlater, hkept⟩ := removeAll_keeps
      (names.filter fun name => LocalFile.isImage name && !LetterCase.same name keep) sound
    refine ⟨_, _, rfl, hlater, fun name hname => ?_⟩
    rw [hkept name, done.1]
    intro hmem
    have hremoved := (List.mem_filter.1 hmem).2
    rcases hname with h | h <;> simp [h] at hremoved

/-! ## Recording and starting a version -/

/-- A record is written whole, or the version is not recorded. Where a file that is there can be
emptied, no version is recorded then. -/
theorem record_ends (file line : String) (hsound : Sound u.agent.files) :
    ∃ files, Sound files ∧
      (∀ other, other ≠ file → contents files other = contents u.agent.files other) ∧
      (record file line u = .ok () (u.withFiles files) ∧
          contents files file = some (Utf8.ofString line) ∨
        record file line u = .error .versionWrite (u.withFiles files) ∧
          (Reliable φ → contents u.agent.files file ≠ none → contents files file = some [])) := by
  obtain ⟨files, hfiles, ⟨_, hcreate, hcreated⟩ | ⟨e, hcreate, hsame⟩⟩ :=
    onFiles_ends (u := u) (FileMap.create file hsound)
  · have hother {other : String} (h : other ≠ file) :
        contents files other = contents u.agent.files other := by
      rw [hcreated, Function.update_of_ne h]
    have hempty : contents files file = some [] := by rw [hcreated, Function.update_self]
    obtain ⟨later, hlater, ⟨_, happend, content, hcontent, hdone⟩ | ⟨e, happend, hsame⟩⟩ :=
      onFiles_ends (u := u.withFiles files) (FileMap.append file (Utf8.ofString line) hfiles)
    · refine ⟨later, hlater, fun other h => ?_, .inl ⟨?_, ?_⟩⟩
      · rw [hdone, Function.update_of_ne h]
        exact hother h
      · rw [record, bind_of_ok hcreate]
        exact bind_of_ok happend
      · obtain rfl : [] = content := Option.some.inj (hempty.symm.trans hcontent)
        rw [hdone, Function.update_self, List.nil_append]
    · refine ⟨later, hlater, fun other h => ?_, .inr ⟨?_, fun _ _ => ?_⟩⟩
      · rw [hsame]
        exact hother h
      · rw [record, bind_of_ok hcreate]
        exact bind_of_ok happend
      · rw [hsame]
        exact hempty
  · refine ⟨files, hfiles, fun other _ => congrFun hsame other, .inr ⟨?_, fun h hfile => ?_⟩⟩
    · rw [record, bind_of_ok hcreate]
      rfl
    · obtain ⟨content, hcontent⟩ := Option.ne_none_iff_exists'.1 hfile
      obtain ⟨later, hlater⟩ := h.create hsound hcontent
      rw [onFiles, hlater] at hcreate
      cases hcreate

end Update

end DeviceHttp
