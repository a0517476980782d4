import DeviceHttp.Proofs.Firmware.Courses
import DeviceHttp.Proofs.Storage.Table

/-!
# Installed images

A run that installs a version, or asks for a reboot, has the image in its file whole and checked,
and the record of its version beside it, before it does so (`Agent.run_installs_checked`). That
holds whichever calls on the files fail under way.
-/

namespace DeviceHttp

open FileMap (Sound contents)

namespace Agent

section Runs

variable {φ : Type}

/-- A run that ends as an update does. An agent that did not install anything is idle again. -/
def ended : EStateM.Result UpdateError (Update φ) UpdateOutcome → Run φ
  | .ok (.updated version stale) u => (.ok (.updated version stale), u)
  | .ok .upToDate u => (.ok .upToDate, u.inPhase .idle)
  | .error e u => (.error e, u.inPhase .idle)

/-- The files are not touched any more when a version is started. -/
theorem ended_activate (config : UpdateConfig) (version : Nat) (stale : Bool) (w : Update φ) :
    let run := ended (Update.activate config (.updated version stale) w)
    let reboots := run.2.agent.platform.reboots
    run.2.agent.files = w.agent.files ∧
    ((run.1 = .ok (.updated version stale) ∧ run.2.agent.phase = w.agent.phase ∧
        (reboots = w.agent.platform.reboots ∨
          config.reboot = .auto ∧ reboots = w.agent.platform.reboots + 1)) ∨
      ∃ e, w.agent.platform.failure = some e ∧ run.1 = .error e ∧ run.2.agent.phase = .idle ∧
        config.reboot = .auto ∧ reboots = w.agent.platform.reboots + 1) := by
  rcases Update.activate_ends config (.updated version stale) w with ⟨-, hend⟩ |
    ⟨hauto, u, hfiles, hphase, hreboots, hend | ⟨e, hfailure, hend⟩⟩ <;> rw [hend]
  · exact ⟨rfl, .inl ⟨rfl, rfl, .inl rfl⟩⟩
  · exact ⟨hfiles, .inl ⟨rfl, hphase, .inr ⟨hauto, hreboots⟩⟩⟩
  · exact ⟨hfiles, .inr ⟨e, hfailure, rfl, rfl, hauto, hreboots⟩⟩

variable [FileSystem φ]

theorem run_eq (config : UpdateConfig) (client : Client) (agent : Agent φ) :
    agent.run config client = ended (Update.perform config { agent, client }) := by
  rfl

variable [FileMap φ]

/-- A run ends as an update does that takes one of the courses. -/
theorem run_course (config : UpdateConfig) (client : Client) (agent : Agent φ)
    (hsound : Sound agent.files) :
    ∃ result, Update.Course config { agent, client } result ∧
      agent.run config client = ended result :=
  ⟨_, Update.perform_course config _ hsound, run_eq config client agent⟩

/-- A run comes to where only the reboot is left to be done, if there is to be one, or it installs
nothing and asks for none. -/
theorem run_cases (config : UpdateConfig) (client : Client) (agent : Agent φ)
    (hsound : Sound agent.files) :
    (∃ line m r stale, ∃ w : Update φ, Sound w.agent.files ∧
      Update.Installs config client line m r (contents w.agent.files) ∧
      w.agent.platform = agent.platform ∧ w.agent.phase = .installed ∧
      agent.run config client = ended (Update.activate config (.updated m.version stale) w)) ∨
    (agent.run config client).2.agent.platform = agent.platform ∧
      (agent.run config client).2.agent.phase = .idle ∧
      ∀ version stale, (agent.run config client).1 ≠ .ok (.updated version stale) := by
  obtain ⟨result, hcourse, hrun⟩ := run_course config client agent hsound
  rw [hrun]
  cases hcourse with
  | unoffered none cause kept => exact .inr ⟨kept.platform, rfl, nofun⟩
  | upToDate offers recorded kept events => exact .inr ⟨kept.platform, rfl, nofun⟩
  | uncreated offers differs kept absent => exact .inr ⟨kept.platform, rfl, nofun⟩
  | unverified offers differs cause platform lacks => exact .inr ⟨platform, rfl, nofun⟩
  | unrecorded offers differs sound platform emptied => exact .inr ⟨platform, rfl, nofun⟩
  | installed differs sound installs platform phase =>
    exact .inl ⟨_, _, _, _, _, sound, installs, platform, phase, rfl⟩

end Runs

/-- A run that installs a version, or asks for a reboot, has everything in place before that, and
only the reboot is left, which is asked for once if that is chosen and not at all if it is not. The
agent is in the phase of an installed image exactly if a version was installed, and idle
otherwise. -/
theorem run_installs_checked (config : UpdateConfig) (client : Client)
    (agent : Agent (Monitored MemoryStore)) (hsound : agent.files.files.Sound) :
    let run := agent.run config client
    let reboots := run.2.agent.platform.reboots
    (reboots = agent.platform.reboots ∨
      config.reboot = .auto ∧ reboots = agent.platform.reboots + 1) ∧
    (run.2.agent.phase = .installed ↔ ∃ version stale, run.1 = .ok (.updated version stale)) ∧
    (run.2.agent.phase = .installed ∨ run.2.agent.phase = .idle) ∧
    ((∃ version stale, run.1 = .ok (.updated version stale)) ∨ reboots ≠ agent.platform.reboots →
      ∃ line m r stale, ∃ w : Update (Monitored MemoryStore),
        Update.Installs config client line m r (fun file => w.agent.files.files.contents? file) ∧
        w.agent.platform = agent.platform ∧ run.2.agent.files = w.agent.files ∧
        run = ended (Update.activate config (.updated m.version stale) w) ∧
        ∀ version stale, run.1 = .ok (.updated version stale) → version = m.version) := by
  have hcases := run_cases config client agent hsound
  -- nothing else is needed of the run, and it is not to be evaluated
  generalize agent.run config client = run at hcases ⊢
  dsimp only
  rcases hcases with
    ⟨line, m, r, stale, w, -, hinstalls, hplatform, hphase, hrun⟩ | ⟨hplatform, hphase, hnone⟩
  · obtain ⟨hfiles, hends⟩ := ended_activate config m.version stale w
    rw [← hrun, hplatform, hphase] at hends
    rw [← hrun] at hfiles
    have hversion : ∀ version kept, run.1 = .ok (.updated version kept) → version = m.version := by
      intro version kept h
      rcases hends with ⟨hok, -⟩ | ⟨e, -, herror, -⟩
      · cases hok.symm.trans h
        rfl
      · cases herror.symm.trans h
    refine ⟨?_, ?_, ?_, fun _ =>
      ⟨line, m, r, stale, w, hinstalls, hplatform, hfiles, hrun, hversion⟩⟩
    · rcases hends with ⟨-, -, hreboots⟩ | ⟨e, -, -, -, hauto, hreboots⟩
      · exact hreboots
      · exact .inr ⟨hauto, hreboots⟩
    · rcases hends with ⟨hok, hinstalled, -⟩ | ⟨e, -, herror, hidle, -⟩
      · exact iff_of_true hinstalled ⟨_, _, hok⟩
      · refine iff_of_false (fun h => ?_) ?_
        · cases hidle.symm.trans h
        · rintro ⟨version, kept, h⟩
          cases herror.symm.trans h
    · rcases hends with ⟨-, hinstalled, -⟩ | ⟨e, -, -, hidle, -⟩
      · exact .inl hinstalled
      · exact .inr hidle
  · rw [hplatform, hphase]
    refine ⟨.inl rfl, iff_of_false nofun ?_, .inr rfl, ?_⟩
    · rintro ⟨version, stale, h⟩
      exact hnone version stale h
    · rintro (⟨version, stale, h⟩ | h)
      · exact absurd h (hnone version stale)
      · exact absurd rfl h

/-- An image of two bytes on files whose list cannot be read. The cleanup fails for that reason, and
the version is installed and the device restarted all the same. -/
theorem run_installs_checked_of_two_bytes :
    let config : UpdateConfig := { baseUrl := "http://a", name := "fw", reboot := .auto }
    let client := { Client.new 64 with
      network := [
        some (.sending [Utf8.ofString "HTTP/1.1 200 OK\r\nContent-Length: 5\r\n\r\n5,3,2"]),
        some (.sending [Utf8.ofString "HTTP/1.1 200 OK\r\nContent-Length: 2\r\n\r\n" ++ [1, 2]])] }
    let agent : Agent (Monitored MemoryStore) :=
      { files :=
          { files := { maxFiles := 2, maxBytes := 8 }
            fault := fun kind _ => if kind = .list then some .readFailed else none } }
    let run := agent.run config client
    run.2.agent.platform.reboots = 1 ∧
      run.2.agent.files.files.contents? "fw05.bin" = some [1, 2] ∧
      ∃ line m r, Update.Installs config client line m r
        (fun file => run.2.agent.files.files.contents? file) := by
  intro config client agent
  have hfacts : (agent.run config client).2.agent.platform.reboots = 1 ∧
      (agent.run config client).2.agent.files.files.contents? "fw05.bin" = some [1, 2] := by
    decide +kernel
  have hchecked := run_installs_checked config client agent (MemoryStore.sound_empty 2 8)
  have hnone : agent.platform.reboots = 0 := rfl
  clear_value agent
  generalize agent.run config client = run at hfacts hchecked ⊢
  dsimp only at hchecked ⊢
  have hasked : run.2.agent.platform.reboots ≠ agent.platform.reboots := by
    rw [hfacts.1, hnone]
    decide
  obtain ⟨line, m, r, stale, w, hinstalls, -, hfiles, -⟩ := hchecked.2.2.2 (.inr hasked)
  refine ⟨hfacts.1, hfacts.2, line, m, r, ?_⟩
  rw [hfiles]
  exact hinstalls

end Agent

end DeviceHttp
