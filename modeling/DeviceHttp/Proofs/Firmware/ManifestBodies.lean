import DeviceHttp.Proofs.Firmware.Recognition

/-!
# Manifests and their bodies

A body that comes for a manifest may be longer than a manifest is kept, and then the agent sees its
front only. A run goes by what it sees (`Agent.goesBy_of_offers`). Of a body that is not too long that
is everything. Of a longer one it is a manifest by accident, in front of text that is dropped, or with
a last number that is cut, and that is the only case in which a run does not heed the whole body
(`Agent.run_heeds_body_iff`).
-/

namespace DeviceHttp

open FileMap (Sound contents)

/-- The bytes are a line that is a manifest. -/
structure Manifest.Spells (bytes : Bytes) (line : String) (m : Manifest) : Prop where
  text : Utf8.ofString line = bytes
  parsed : Manifest.parse line = .ok m

namespace UpdateConfig

variable {config : UpdateConfig} {client : Client} {line : String} {m : Manifest} {body : Bytes}

/-- The body that comes for a manifest, which comes whole. -/
structure Receives (config : UpdateConfig) (client : Client) (body : Bytes) : Prop where
  fits : Utf8.fits Url.textCapacity (config.address "txt") = true
  result : (config.manifestFetch client).result = .ok ()
  written : Delivery.written (config.manifestFetch client).deliveries = body

/-- What is on offer is what the front of the body spells. -/
theorem Receives.offers_iff (h : config.Receives client body) :
    config.Offers client line m ↔ Manifest.Spells (body.take Manifest.capacity) line m := by
  constructor
  · intro hoffers
    exact ⟨h.written ▸ hoffers.text, hoffers.parsed⟩
  · intro hspells
    exact ⟨⟨h.fits, h.result, h.written.symm ▸ hspells.text⟩, hspells.parsed⟩

end UpdateConfig

namespace Update

variable {φ : Type} [FileSystem φ] {config : UpdateConfig} {line : String} {m : Manifest}
  {body : Bytes} {u : Update φ}

/-- Go by a manifest: there is nothing to do if its version is the one that is recorded, and else it
is installed. -/
def heed (config : UpdateConfig) (recorded : Option Nat) (line : String) (m : Manifest) :
    Action φ UpdateOutcome :=
  if recorded = some m.version then pure .upToDate
  else install config (LocalFile.recordName config.name) line m

/-- The update where the record was looked up and the transaction for the manifest is over. -/
def asked (config : UpdateConfig) (u : Update φ) : Update φ :=
  ((u.inPhase .checking).withFiles (recordedVersion config.name u.agent.files).2).fetched
    (config.manifestFetch u.client)

/-- Nothing but the phase is changed in front of the transaction. -/
theorem asked_keeps [FileMap φ] (config : UpdateConfig) (hsound : Sound u.agent.files) :
    contents (asked config u).agent.files = contents u.agent.files ∧
      (asked config u).agent.platform = u.agent.platform ∧
      (asked config u).events = u.events ++ (config.manifestFetch u.client).events := by
  simp [asked, (recordedVersion_keeps config.name hsound).2]

/-- An update whose manifest came is a matter of what its front spells. The rest of the body is not
looked at. -/
theorem perform_of_receives (h : config.Receives u.client body) :
    perform config u =
      match Utf8.toString? (body.take Manifest.capacity) with
      | some line => (require (Manifest.parse line) >>= heed config
          (recordedVersion config.name u.agent.files).1 line) (asked config u)
      | none => .error .malformedManifest (asked config u) := by
  have hlook : installedVersion config.name (u.inPhase .checking)
      = .ok (recordedVersion config.name u.agent.files).1
        ((u.inPhase .checking).withFiles (recordedVersion config.name u.agent.files).2) := rfl
  rw [perform, bind_of_ok (enter_ok .checking u), LocalFile.versionFile_eq,
    bind_of_ok (require_ok _ _), bind_of_ok hlook, asked]
  generalize hv : (u.inPhase .checking).withFiles (recordedVersion config.name u.agent.files).2 = v
  have hclient : v.client = u.client := by simp [← hv]
  have hfetch := fetchManifest_of_ok v h.fits (hclient.symm ▸ h.result)
  rw [hclient, h.written] at hfetch
  cases htext : Utf8.toString? (body.take Manifest.capacity) with
  | some line =>
    rw [htext] at hfetch
    exact bind_of_ok hfetch
  | none =>
    rw [htext] at hfetch
    exact bind_of_error hfetch

/-- An update goes by the manifest on offer. -/
theorem perform_of_offers (h : config.Offers u.client line m) :
    perform config u
      = heed config (recordedVersion config.name u.agent.files).1 line m (asked config u) := by
  have hreceives : config.Receives u.client _ := ⟨h.fits, h.result, rfl⟩
  rw [perform_of_receives hreceives, ← h.text, Utf8.toString?_ofString]
  dsimp only
  rw [h.parsed, bind_of_ok (require_ok _ _)]

/-- An update whose manifest came and is none ends there. -/
theorem perform_of_no_manifest (h : config.Receives u.client body)
    (hnone : ∀ line m, ¬ Manifest.Spells (body.take Manifest.capacity) line m) :
    perform config u = .error .malformedManifest (asked config u) := by
  rw [perform_of_receives h]
  cases htext : Utf8.toString? (body.take Manifest.capacity) with
  | none => rfl
  | some line =>
    dsimp only
    cases hparse : Manifest.parse line with
    | ok m => exact absurd ⟨(Utf8.toString?_eq_some_iff.1 htext).symm, hparse⟩ (hnone line m)
    | error e =>
      rw [Manifest.eq_malformedManifest_of_parse hparse]
      rfl

end Update

namespace Agent

variable {φ : Type} [FileSystem φ] [FileMap φ] {config : UpdateConfig} {client : Client}
  {agent : Agent φ} {line : String} {m : Manifest} {body : Bytes}

/-- The run goes by this manifest from its first transaction on. That is, its version is the one that
is compared with the recorded one and the one that is reported, and an installed image has the
length and the checksum that it says. -/
structure GoesBy (config : UpdateConfig) (client : Client) (agent : Agent φ) (line : String)
    (m : Manifest) : Prop where
  run : agent.run config client = ended (Update.heed config
    (agent.installedVersion config.name).1 line m (Update.asked config { agent, client }))
  compares : (agent.run config client).1 = .ok .upToDate ↔
    (agent.installedVersion config.name).1 = some m.version
  reports : ∀ version stale, (agent.run config client).1 = .ok (.updated version stale) →
    version = m.version
  verifies : ∀ version stale, (agent.run config client).1 = .ok (.updated version stale) →
    ∃ image content, LocalFile.imageFile config.name m.version = .ok image ∧
      contents (agent.run config client).2.agent.files image = some content ∧
      Update.Verified config.checksum m content

/-- The run ends with the first transaction: there is no manifest. -/
structure Rejects (config : UpdateConfig) (client : Client) (agent : Agent φ) : Prop where
  result : (agent.run config client).1 = .error .malformedManifest
  events : (agent.run config client).2.events = (config.manifestFetch client).events
  files : contents (agent.run config client).2.agent.files = contents agent.files
  platform : (agent.run config client).2.agent.platform = agent.platform

/-- The run heeds a whole body. If it gets past the manifest, which it does when the version is up to
date and when the image is asked for, then it goes by the manifest that the whole body spells. If
the body is too long or spells none, there is no manifest. -/
structure Heeds (config : UpdateConfig) (client : Client) (agent : Agent φ) (body : Bytes) :
    Prop where
  accepted : (agent.run config client).1 = .ok .upToDate ∨
      (agent.run config client).2.events ≠ (config.manifestFetch client).events →
    ∃ line m, Manifest.Spells body line m ∧ GoesBy config client agent line m
  rejected : Manifest.capacity < body.length ∨ (∀ line m, ¬ Manifest.Spells body line m) →
    Rejects config client agent

/-- A version that is installed is the one on offer, and in place: its image holds the body that was
downloaded for it. -/
theorem installs_of_offers (hsound : Sound agent.files) (h : config.Offers client line m)
    {version : Nat} {stale : Bool}
    (hok : (agent.run config client).1 = .ok (.updated version stale)) :
    ∃ r, version = m.version ∧ Update.Installs config client line m r
      (contents (agent.run config client).2.agent.files) := by
  have hcases := run_cases config client agent hsound
  -- nothing else is needed of the run, and it is not to be evaluated
  generalize agent.run config client = run at hcases hok ⊢
  rcases hcases with ⟨line', m', r, kept, w, -, hinstalls, -, -, hend⟩ | ⟨-, -, hnone⟩
  · obtain ⟨hfiles, ⟨hupdated, -⟩ | ⟨e, -, herror, -⟩⟩ := ended_activate config m'.version kept w
    · rw [← hend] at hfiles hupdated
      obtain rfl := h.toFetches.unique hinstalls.offers.toFetches
      obtain rfl := h.unique hinstalls.offers
      cases hupdated.symm.trans hok
      exact ⟨r, rfl, hfiles ▸ hinstalls⟩
    · rw [← hend] at herror
      cases herror.symm.trans hok
  · exact absurd hok (hnone version stale)

/-- A manifest that is offered is the one that the run goes by, whatever becomes of the image. -/
theorem goesBy_of_offers (hsound : Sound agent.files) (h : config.Offers client line m) :
    GoesBy config client agent line m := by
  have hperform := Update.perform_of_offers (u := { agent, client }) h
  refine ⟨?_, ?_, fun version stale hok => ?_, fun version stale hok => ?_⟩
  · rw [run_eq, hperform]
    rfl
  · refine (run_upToDate_iff config client agent hsound).1.trans ⟨?_, fun hsame => ⟨line, m, h, hsame⟩⟩
    rintro ⟨line', m', h', hsame⟩
    rwa [h.unique h']
  · obtain ⟨-, hversion, -⟩ := installs_of_offers hsound h hok
    exact hversion
  · obtain ⟨r, -, hplace⟩ := installs_of_offers hsound h hok
    obtain ⟨image, himage, hcontent⟩ := hplace.image
    exact ⟨image, r.content, himage, hcontent, hplace.verified⟩

/-- A body whose front spells no manifest is rejected, and no file is touched for it. -/
theorem rejects_of_no_manifest (hsound : Sound agent.files) (h : config.Receives client body)
    (hnone : ∀ line m, ¬ Manifest.Spells (body.take Manifest.capacity) line m) :
    Rejects config client agent := by
  obtain ⟨hfiles, hplatform, hevents⟩ :=
    Update.asked_keeps (u := { agent, client }) config hsound
  have hperform := Update.perform_of_no_manifest (u := { agent, client }) h hnone
  generalize Update.asked config { agent, client } = w at *
  refine ⟨?_, ?_, ?_, ?_⟩ <;> rw [run_eq, hperform]
  · rfl
  · exact hevents
  · exact hfiles
  · exact hplatform

/-- A run with a manifest on offer does not end as if there was none. -/
theorem not_rejects_of_offers (hsound : Sound agent.files) (h : config.Offers client line m) :
    ¬ Rejects config client agent := by
  rintro ⟨hresult, -, -, hplatform⟩
  obtain ⟨result, hcourse, hrun⟩ := run_course config client agent hsound
  rw [hrun] at hresult hplatform
  cases hcourse with
  | unoffered none cause kept => exact none line m h
  | upToDate offers recorded kept events => cases hresult
  | uncreated offers differs kept absent => cases hresult
  | unverified offers differs cause platform lacks =>
    cases hresult
    exact cause
  | unrecorded offers differs sound platform emptied => cases hresult
  | @installed line' m' r stale w differs sound installs platform phase =>
    -- a platform may answer anything, but only when it was asked
    obtain ⟨-, ⟨hok, -⟩ | ⟨e, -, -, -, -, hasked⟩⟩ := ended_activate config m'.version stale w
    · cases hok.symm.trans hresult
    · rw [hplatform, platform] at hasked
      exact absurd hasked (Nat.succ_ne_self _).symm

/-- A run heeds the whole body that came for the manifest, unless that is longer than a manifest is
kept and its front is one. -/
theorem run_heeds_body_iff (hsound : Sound agent.files) (hbody : config.Receives client body) :
    (∃ r, client.EndsOn .get (config.address "txt") none config.timeout r ∧ r.content = body) ∧
    (Heeds config client agent body ↔ body.length ≤ Manifest.capacity ∨
      ∀ line m, ¬ Manifest.Spells (body.take Manifest.capacity) line m) := by
  obtain ⟨r, hends, hcontent⟩ := Client.endsOn_of_ok hbody.result
  refine ⟨⟨r, hends, hcontent.symm.trans hbody.written⟩, fun hheeds => ?_, fun hfront => ?_⟩
  · by_contra hcut
    rw [not_or] at hcut
    refine hcut.2 fun line m hspells => ?_
    exact not_rejects_of_offers hsound (hbody.offers_iff.2 hspells)
      (hheeds.rejected (.inl (Nat.lt_of_not_le hcut.1)))
  · by_cases hnone : ∀ line m, ¬ Manifest.Spells (body.take Manifest.capacity) line m
    · have hrejects := rejects_of_no_manifest hsound hbody hnone
      refine ⟨?_, fun _ => hrejects⟩
      rintro (hok | hmore)
      · cases hrejects.result.symm.trans hok
      · exact absurd hrejects.events hmore
    · have hwhole : body.take Manifest.capacity = body :=
        List.take_of_length_le (hfront.resolve_right hnone)
      push Not at hnone
      obtain ⟨line, m, hspells⟩ := hnone
      have hoffers := hbody.offers_iff.2 hspells
      rw [hwhole] at hspells
      refine ⟨fun _ => ⟨line, m, hspells, goesBy_of_offers hsound hoffers⟩, ?_⟩
      rintro (hlong | hother)
      · exact absurd (hfront.resolve_right fun hnone => hnone line m (hwhole.symm ▸ hspells))
          (Nat.not_le_of_lt hlong)
      · exact absurd hspells (hother line m)

/-- A body in two chunks that is as long as a manifest may be, blanks at its end included. -/
theorem run_heeds_body_iff_of_longest :
    let config : UpdateConfig := { baseUrl := "http://a", name := "fw" }
    let client := { Client.new 64 with
      network := [
        some (.sending [Utf8.ofString "HTTP/1.1 200 OK\r\nTransfer-Encoding: chunked\r\n\r\n3\r\n5,0\r\n",
          Utf8.ofString "2F\r\n,0" ++ List.replicate 45 32 ++ Utf8.ofString "\r\n0\r\n"]),
        some (.sending [Utf8.ofString "HTTP/1.1 200 OK\r\nContent-Length: 0\r\n\r\n"])] }
    let agent : Agent MemoryStore := { files := { maxFiles := 2, maxBytes := 64 } }
    (agent.run config client).1 = .ok (.updated 5 false) ∧
      Heeds config client agent (Utf8.ofString "5,0,0" ++ List.replicate 45 32) := by
  intro config client agent
  obtain ⟨hresult, hwritten, hrun⟩ : (config.manifestFetch client).result = .ok () ∧
      Delivery.written (config.manifestFetch client).deliveries
        = Utf8.ofString "5,0,0" ++ List.replicate 45 32 ∧
      (agent.run config client).1 = .ok (.updated 5 false) := by
    decide +kernel
  have hsound : Sound agent.files := MemoryStore.sound_empty 2 64
  have hbody : config.Receives client _ := ⟨by decide +kernel, hresult, hwritten⟩
  exact ⟨hrun, (run_heeds_body_iff hsound hbody).2.2 (.inl (by decide))⟩

/-- The size in this manifest is 1, and an image of no bytes is installed for it: its last digit is
behind those that are kept. -/
theorem run_cuts_manifest :
    let config : UpdateConfig := { baseUrl := "http://updates.local/fw", name := "firmware" }
    let body := Utf8.ofString "5,0," ++ List.replicate 46 48 ++ [49]
    let client := { Client.new 256 with
      network := [
        some (.sending [Utf8.ofString "HTTP/1.1 200 OK\r\nContent-Length: 51\r\n\r\n" ++ body]),
        some (.sending [Utf8.ofString "HTTP/1.1 200 OK\r\nContent-Length: 0\r\n\r\n"])] }
    let agent : Agent MemoryStore := { files := { maxFiles := 8, maxBytes := 1024 } }
    agent.files.Sound ∧ config.Receives client body ∧ Manifest.capacity < body.length ∧
      (∃ line, Manifest.Spells body line ⟨5, 0, 1⟩) ∧
      (agent.run config client).1 = .ok (.updated 5 false) ∧
      (agent.run config client).2.agent.files.contents? "firmwa05.bin" = some [] ∧
      ¬ Heeds config client agent body := by
  intro config body client agent
  obtain ⟨hfetch, hwritten, hrun, himage⟩ : (config.manifestFetch client).result = .ok () ∧
      Delivery.written (config.manifestFetch client).deliveries = body ∧
      (agent.run config client).1 = .ok (.updated 5 false) ∧
      (agent.run config client).2.agent.files.contents? "firmwa05.bin" = some [] := by
    decide +kernel
  have hbody : config.Receives client body := ⟨by decide +kernel, hfetch, hwritten⟩
  have hlong : Manifest.capacity < body.length := by decide
  have hspells : Manifest.Spells body "5,0,00000000000000000000000000000000000000000000001" ⟨5, 0, 1⟩ :=
    ⟨by decide +kernel, by decide +kernel⟩
  refine ⟨MemoryStore.sound_empty 8 1024, hbody, hlong, ⟨_, hspells⟩, hrun, himage,
    fun hheeds => ?_⟩
  have hrejects := (hheeds.rejected (.inl hlong)).result
  rw [hrun] at hrejects
  cases hrejects

end Agent

end DeviceHttp
