import DeviceHttp.Proofs.Firmware.Failures

/-!
# Recognised versions

The record of an installed version is the line of its manifest, and it is read back by a reader of
its own. That one does not know the plus sign which a manifest may have in front of its version, so
a version that came with one is not recognised. Any other version is: the next run that is offered
the same line leaves everything as it is (`Agent.run_recognised_iff`).
-/

namespace DeviceHttp

open FileMap (Sound contents Reliable)

/-- A text that was fetched ends on a response. Where the next connection of a client brings the
same response, that client fetches the same text over one connection. -/
theorem UpdateConfig.Fetches.exists_reply {config : UpdateConfig} {client : Client} {line : String}
    (h : config.Fetches client line) :
    ∃ r, client.EndsOn .get (config.address "txt") none config.timeout r ∧
      ∀ (again : Client) (peer : Peer) (after : Bytes),
        (again.firstVisit (config.address "txt") none).Answered .get config.timeout peer →
        peer.Steady →
        r.Final again.window.capacity (again.firstVisit (config.address "txt") none).follows →
        peer.stream = r.bytes ++ after →
        config.Fetches again line ∧
          (connects (config.manifestFetch again).events).length = 1 := by
  obtain ⟨r, hends, hcontent⟩ := Client.endsOn_of_ok h.result
  refine ⟨r, hends, fun again peer after hanswered hpeer hr hstream => ?_⟩
  obtain ⟨hresult, hsame, hconnects⟩ := Client.execute_of_answered hanswered hpeer hr hstream
  refine ⟨⟨h.fits, hresult, h.text.trans ?_⟩, hconnects⟩
  exact congrArg (List.take Manifest.capacity) (hcontent.trans hsame.symm)

namespace Agent

variable {φ : Type} [FileSystem φ] [FileMap φ]

/-- A run finds its version up to date exactly if the one that is offered is the one that is
recorded. It does nothing then but to fetch the manifest. -/
theorem run_upToDate_iff (config : UpdateConfig) (client : Client) (agent : Agent φ)
    (hsound : Sound agent.files) :
    let run := agent.run config client
    (run.1 = .ok .upToDate ↔ ∃ line m, config.Offers client line m ∧
        (agent.installedVersion config.name).1 = some m.version) ∧
    (run.1 = .ok .upToDate → contents run.2.agent.files = contents agent.files ∧
      run.2.events = (config.manifestFetch client).events) := by
  obtain ⟨result, hcourse, hrun⟩ := run_course config client agent hsound
  rw [hrun, installedVersion]
  dsimp only
  have hother {line : String} {m : Manifest} (offers : config.Offers client line m)
      (differs : (Update.recordedVersion config.name agent.files).1 ≠ some m.version) :
      ¬ ∃ line m, config.Offers client line m ∧
        (Update.recordedVersion config.name agent.files).1 = some m.version := by
    rintro ⟨line', m', h, hrecorded⟩
    rw [h.unique offers] at hrecorded
    exact differs hrecorded
  have hrefuted {a b c : Prop} (ha : ¬ a) (hb : ¬ b) : (a ↔ b) ∧ (a → c) :=
    ⟨iff_of_false ha hb, fun h => absurd h ha⟩
  cases hcourse with
  | unoffered none cause kept =>
    refine hrefuted (by simp [ended]) ?_
    rintro ⟨line, m, h, -⟩
    exact none line m h
  | upToDate offers recorded kept events =>
    exact ⟨iff_of_true rfl ⟨_, _, offers, recorded⟩, fun _ => ⟨kept.contents, events⟩⟩
  | uncreated offers differs kept absent =>
    exact hrefuted (by simp [ended]) (hother offers differs)
  | unverified offers differs cause platform lacks =>
    exact hrefuted (by simp [ended]) (hother offers differs)
  | unrecorded offers differs sound platform emptied =>
    exact hrefuted (by simp [ended]) (hother offers differs)
  | @installed line m r stale w differs sound installs platform phase =>
    refine hrefuted ?_ (hother installs.offers differs)
    obtain ⟨-, ⟨hend, -⟩ | ⟨e, -, hend, -⟩⟩ := ended_activate config m.version stale w <;>
      simp [hend]

/-- Of a version that is in place, the record gives the version back, unless the line has a sign. -/
theorem installedVersion_of_installs {config : UpdateConfig} {client : Client} {line : String}
    {m : Manifest} {r : Reply} {agent : Agent φ} (hreliable : Reliable φ)
    (hsound : Sound agent.files)
    (h : Update.Installs config client line m r (contents agent.files)) :
    (agent.installedVersion config.name).1
      = if Manifest.Signed line then none else some m.version := by
  obtain ⟨file, hfile, hrecord⟩ := h.record
  obtain rfl : LocalFile.recordName config.name = file :=
    Except.ok.inj ((LocalFile.versionFile_eq _).symm.trans hfile)
  have hshort : (Utf8.encode (Blank.trim line.toList)).length ≤ Manifest.capacity :=
    Nat.le_trans (Blank.length_encode_trim_le _) h.offers.length_le
  rw [installedVersion_eq hreliable _ _ hsound, hrecord, Option.bind_some,
    List.take_of_length_le hshort, Manifest.leadingVersion_of_parse h.offers.parsed]

/-- A version that was installed is recognised exactly if its manifest has no plus sign in front of
it: it is the installed version then, and the next run that gets the same response for the manifest
ends there, over one connection, and leaves the files as they are. -/
theorem run_recognised_iff {config : UpdateConfig} {client : Client} {agent : Agent MemoryStore}
    {version : Nat} {stale : Bool} {u : Update MemoryStore} (hsound : agent.files.Sound)
    (hrun : agent.run config client = (.ok (.updated version stale), u)) :
    ∃ line m r, config.Offers client line m ∧ m.version = version ∧
      client.EndsOn .get (config.address "txt") none config.timeout r ∧
      ((u.agent.installedVersion config.name).1 = some version ↔ ¬ Manifest.Signed line) ∧
      ∀ (again : Client) (peer : Peer) (after : Bytes),
        (again.firstVisit (config.address "txt") none).Answered .get config.timeout peer →
        peer.Steady →
        r.Final again.window.capacity (again.firstVisit (config.address "txt") none).follows →
        peer.stream = r.bytes ++ after →
        let next := u.agent.run config again
        (next.1 = .ok .upToDate ↔ ¬ Manifest.Signed line) ∧
        (next.1 = .ok .upToDate → (connects next.2.events).length = 1 ∧
          contents next.2.agent.files = contents u.agent.files) := by
  rcases run_cases config client agent hsound with
    ⟨line, m, r, kept, w, hlate, hinstalls, -, -, hend⟩ | ⟨-, -, hnone⟩
  · obtain ⟨hfiles, ⟨hok, -⟩ | ⟨e, -, herror, -⟩⟩ := ended_activate config m.version kept w
    · rw [← hend, hrun] at hfiles hok
      dsimp only at hfiles hok
      cases hok
      rw [← hfiles] at hlate hinstalls
      have hversion := installedVersion_of_installs MemoryStore.reliable hlate hinstalls
      have hiff : (u.agent.installedVersion config.name).1 = some m.version
          ↔ ¬ Manifest.Signed line := by
        rw [hversion, Option.ite_none_left_eq_some, and_iff_left rfl]
      obtain ⟨r, hends, hagain⟩ := hinstalls.offers.exists_reply
      refine ⟨line, m, r, hinstalls.offers, rfl, hends, hiff,
        fun again peer after hanswered hpeer hr hstream => ?_⟩
      obtain ⟨hfetches, hconnects⟩ := hagain again peer after hanswered hpeer hr hstream
      have hoffers : config.Offers again line m := ⟨hfetches, hinstalls.offers.parsed⟩
      obtain ⟨hnext, hquiet⟩ := run_upToDate_iff config again u.agent hlate
      refine ⟨hnext.trans (Iff.trans ⟨?_, fun h => ⟨line, m, hoffers, h⟩⟩ hiff), fun h => ?_⟩
      · rintro ⟨line', m', hoffers', hrecorded⟩
        rwa [hoffers'.unique hoffers] at hrecorded
      · obtain ⟨hsame, hevents⟩ := hquiet h
        rw [hevents]
        exact ⟨hconnects, hsame⟩
    · rw [← hend, hrun] at herror
      cases herror
  · rw [hrun] at hnone
    exact absurd rfl (hnone version stale)

/-- A version with an empty image is installed on empty files, and offered again: it is known and
nothing is fetched. -/
theorem run_recognised_iff_of_empty_image :
    let config : UpdateConfig := { baseUrl := "http://a", name := "fw" }
    let client := { Client.new 64 with
      network := [
        some (.sending [Utf8.ofString "HTTP/1.1 200 OK\r\nContent-Length: 5\r\n\r\n5,0,0"]),
        some (.sending [Utf8.ofString "HTTP/1.1 200 OK\r\nContent-Length: 0\r\n\r\n"])] }
    let agent : Agent MemoryStore := { files := { maxFiles := 2, maxBytes := 8 } }
    let u := (agent.run config client).2
    (u.agent.installedVersion config.name).1 = some 5 ∧
      ∃ r, client.EndsOn .get (config.address "txt") none config.timeout r ∧
        (u.agent.run config
          { Client.new 64 with network := [some (.sending [r.bytes])] }).1 = .ok .upToDate := by
  intro config client agent u
  have hoffers : config.Offers client "5,0,0" ⟨5, 0, 0⟩ := by decide +kernel
  have hrun : agent.run config client = (.ok (.updated 5 false), u) :=
    Prod.ext (by decide +kernel) rfl
  clear_value u
  obtain ⟨line, m, r, hline, -, hends, hversion, hagain⟩ :=
    run_recognised_iff (MemoryStore.sound_empty 2 8) hrun
  obtain rfl := hline.toFetches.unique hoffers.toFetches
  have hunsigned : ¬ Manifest.Signed "5,0,0" := by decide +kernel
  refine ⟨hversion.2 hunsigned, r, hends, ?_⟩
  -- the response came to the first attempt, so it is final to the first attempt of the next run
  obtain ⟨before, last, -, htrail, -, -, hfinal⟩ := hends
  have hcomplete : ((client.firstVisit (config.address "txt") none).attempt .get
      config.timeout).result = .ok .complete := by decide +kernel
  have honly := htrail.unique (.last fun location h => nomatch hcomplete.symm.trans h)
  obtain rfl : last = client.firstVisit (config.address "txt") none :=
    Option.some.inj (List.getLast?_concat.symm.trans (congrArg List.getLast? honly))
  have hurl : Url.parse (config.address "txt") = .ok ⟨"http", "a", 80, "/fw.txt"⟩ := by
    decide +kernel
  have hpiece : ∀ piece ∈ [r.bytes], piece ≠ [] := by
    simp [Reply.bytes, Reply.head, Window.crlf]
  have hnext := hagain { Client.new 64 with network := [some (.sending [r.bytes])] }
    (.sending [r.bytes]) [] (Visit.answered_of_open hurl (by decide) rfl ⟨rfl, rfl, rfl⟩)
    (Peer.steady_sending hpiece) hfinal rfl
  exact hnext.1.2 hunsigned

/-- The record of version 5 is the line that it came with, and that starts with a plus sign. -/
theorem run_installs_unrecognised :
    let config : UpdateConfig := { baseUrl := "http://updates.local/fw", name := "firmware" }
    let client := { Client.new 256 with
      network := [
        some (.sending [Utf8.ofString "HTTP/1.1 200 OK\r\nContent-Length: 6\r\n\r\n+5,0,0"]),
        some (.sending [Utf8.ofString "HTTP/1.1 200 OK\r\nContent-Length: 0\r\n\r\n"])] }
    let agent : Agent MemoryStore := { files := { maxFiles := 8, maxBytes := 1024 } }
    let run := agent.run config client
    agent.files.Sound ∧ run.1 = .ok (.updated 5 false) ∧
      (run.2.agent.installedVersion config.name).1 = none := by
  intro config client agent run
  decide +kernel

end Agent

end DeviceHttp
