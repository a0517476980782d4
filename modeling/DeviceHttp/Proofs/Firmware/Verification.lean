import DeviceHttp.Proofs.Firmware.ManifestLines
import DeviceHttp.Proofs.Firmware.Steps

/-!
# The check of an image

A digest reads a file piece by piece and comes to the length and the checksum of what is in it
(`Update.keeps_digestFile`). So an image that passes the check is what its manifest says, and the
check changes no file (`Update.verify_ends`).
-/

namespace DeviceHttp

open FileMap (Sound contents)

variable {φ : Type} [FileSystem φ] [FileMap φ]

/-- What is left behind an offset starts with what is read there. -/
theorem drop_eq_piece_append (content : Bytes) (offset room : Nat) :
    content.drop offset = (content.drop offset).take room
      ++ content.drop (offset + ((content.drop offset).take room).length) := by
  have hrest : content.drop (offset + ((content.drop offset).take room).length)
      = (content.drop offset).drop room := by
    rw [← List.drop_drop, List.length_take]
    exact List.drop_eq_drop_min.symm
  rw [hrest, List.take_append_drop]

namespace Update

/-- In all of these states, a read of the file gives what is in it and leads to such a state. A read
fails only if it may fail. -/
def Reads {φ : Type} [FileSystem φ] (name : String) (content : Bytes) (State : φ → Prop)
    (Fails : Prop) : Prop :=
  ∀ (offset : Nat) (files : φ), State files →
    (∃ later, State later ∧ FileSystem.read name offset checkedAtOnce files
      = .ok ((content.drop offset).take checkedAtOnce) later) ∨
    Fails ∧ ∃ e later, State later ∧
      FileSystem.read name offset checkedAtOnce files = .error e later

/-- A digest of a file from an offset on is the one of the rest of the file, and comes to the length
of the file. The loop ends because every piece that is not empty brings the offset nearer to the end
of the file. -/
theorem digestFile_ends {φ : Type} [FileSystem φ] {name : String} {content : Bytes}
    {State : φ → Prop} {Fails : Prop} (hreads : Reads name content State Fails) (digest : Digest)
    (offset : Nat) {files : φ} (hfiles : State files) :
    (∃ later, State later ∧ digestFile name digest offset files
      = .ok (digest.update (content.drop offset), max offset content.length) later) ∨
    Fails ∧ ∃ e later, State later ∧ digestFile name digest offset files = .error e later := by
  induction hn : content.length - offset using Nat.strongRecOn
    generalizing digest offset files with
  | ind n ih =>
    subst hn
    rw [digestFile_eq]
    rcases hreads offset files hfiles with ⟨later, hlater, hread⟩ | ⟨hfails, e, later, hlater, hread⟩
    · rw [hread]
      have hcut := drop_eq_piece_append content offset checkedAtOnce
      generalize hpiece : (content.drop offset).take checkedAtOnce = piece at *
      cases piece with
      | nil =>
        -- nothing is read at the end of the file only
        have hend : content.drop offset = [] :=
          (List.take_eq_nil_iff.1 hpiece).resolve_left (by decide)
        have hmax : max offset content.length = offset :=
          Nat.max_eq_left (List.drop_eq_nil_iff.1 hend)
        rw [hend, Digest.update_nil, hmax]
        exact .inl ⟨later, hlater, rfl⟩
      | cons b bs =>
        have hpos : 0 < (b :: bs).length := Nat.succ_pos _
        have hlength := congrArg List.length hcut
        rw [List.length_append, List.length_drop, List.length_drop] at hlength
        have hmax : max (offset + (b :: bs).length) content.length = max offset content.length := by
          omega
        have hrest := ih _ (by omega) (digest.update (b :: bs)) (offset + (b :: bs).length) hlater rfl
        rwa [← Digest.update_append, ← hcut, hmax] at hrest
    · rw [hread]
      exact .inr ⟨hfails, e, later, hlater, rfl⟩

/-- A read of a file that is there brings the front of what stands from its offset on, or it fails.
Either way it changes no file. -/
theorem reads_of_contents {name : String} {content : Bytes} {before : Contents}
    (hcontent : before name = some content) :
    Reads name content (fun files : φ => Sound files ∧ contents files = before) True := by
  rintro offset files ⟨hsound, rfl⟩
  have hread := FileMap.read name offset checkedAtOnce hsound
  generalize FileSystem.read name offset checkedAtOnce files = result at hread ⊢
  cases hread with
  | ok sound done =>
    obtain ⟨hsame, content', hcontent', rfl⟩ := done
    obtain rfl : content = content' := Option.some.inj (hcontent.symm.trans hcontent')
    exact .inl ⟨_, ⟨sound, hsame⟩, rfl⟩
  | error sound same => exact .inr ⟨trivial, _, _, ⟨sound, same⟩, rfl⟩

/-- A digest of a file changes no file, and where it has a result there is a file, all of which went
into it from the offset on. -/
theorem keeps_digestFile (name : String) (digest : Digest) (offset : Nat) {files : φ}
    (hsound : Sound files) :
    FileAction.Keeps Sound contents (contents files)
      (fun result later => later = contents files ∧ ∃ content, contents files name = some content ∧
        result = (digest.update (content.drop offset), max offset content.length))
      (digestFile name digest offset files) := by
  cases hcontent : contents files name with
  | none =>
    have hread := FileMap.read name offset checkedAtOnce hsound
    rw [digestFile_eq]
    generalize FileSystem.read name offset checkedAtOnce files = result at hread ⊢
    cases hread with
    | error sound same => exact .error sound same
    | ok sound done =>
      obtain ⟨-, content, hsome, -⟩ := done
      cases hcontent.symm.trans hsome
  | some content =>
    rcases digestFile_ends (reads_of_contents hcontent) digest offset ⟨hsound, rfl⟩ with
      ⟨later, ⟨hlater, hsame⟩, hresult⟩ | ⟨-, e, later, ⟨hlater, hsame⟩, hresult⟩
    · rw [hresult]
      exact .ok hlater ⟨hsame, content, rfl, rfl⟩
    · rw [hresult]
      exact .error hlater hsame

/-- The image is what the manifest says. -/
structure Verified (kind : Checksum) (m : Manifest) (content : Bytes) : Prop where
  size : content.length = m.size
  checksum : (kind.compute content).toNat = m.checksum

theorem verified_iff {kind : Checksum} {m : Manifest} {content : Bytes} :
    Verified kind m content ↔
      content.length = m.size ∧ (kind.compute content).toNat = m.checksum :=
  ⟨fun h => ⟨h.size, h.checksum⟩, fun h => ⟨h.1, h.2⟩⟩

instance (kind : Checksum) (m : Manifest) (content : Bytes) :
    Decidable (Verified kind m content) :=
  decidable_of_iff _ verified_iff.symm

/-- The check reads a file, and either it is what the manifest says or the check fails, with the
files as they were. -/
theorem verify_ends {u : Update φ} (image : String) {m : Manifest} (kind : Checksum)
    (hsound : Sound u.agent.files) :
    ∃ files, Sound files ∧ contents files = contents u.agent.files ∧
      ((∃ content, verify image m kind u = .ok () (u.withFiles files) ∧
          contents u.agent.files image = some content ∧ Verified kind m content) ∨
        ∃ e, verify image m kind u = .error e (u.withFiles files) ∧ OfImage e) := by
  obtain ⟨files, hfiles, ⟨result, hread, hsame, content, hcontent, rfl⟩ | ⟨e, hread, hsame⟩⟩ :=
    onFiles_ends (u := u) (keeps_digestFile image (.start kind) 0 hsound)
  · refine ⟨files, hfiles, hsame, ?_⟩
    rw [verify, bind_of_ok hread]
    dsimp only
    rw [Nat.zero_max, List.drop_zero]
    split
    · next hpasses => exact .inl ⟨content, rfl, hcontent, hpasses.1, hpasses.2⟩
    · exact .inr ⟨.integrity, rfl, trivial⟩
  · refine ⟨files, hfiles, hsame, .inr ⟨.storage e, ?_, trivial⟩⟩
    rw [verify, bind_of_ok hread]
    rfl

end Update

end DeviceHttp
