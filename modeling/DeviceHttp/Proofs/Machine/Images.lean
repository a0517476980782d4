import DeviceHttp.Proofs.Firmware.Checksums
import DeviceHttp.Proofs.Firmware.Verification
import DeviceHttp.Proofs.Machine.Buffering
import DeviceHttp.Storage.MemoryStore

/-!
# The check of an image, piece by piece and at once

An image is checked in pieces that are read into one small buffer, at an offset that is a word of
32 bits. Whatever the pieces of a byte string are, they come to the digest of the whole
(`Digest.result_of_pieces`), and the pieces that are read are those of the file, with nothing left out
and nothing read twice. So the check is one of the whole file (`Update.verify_decides`). As a loop
over words it has no measure that would end it; it ends because a read gives nothing at the end of
the file (`Machine.digestLoop_eq`), unless the offset leaves its word before that
(`Machine.checkImage_of_long`).
-/

namespace DeviceHttp

/-! ## Pieces of a byte string -/

namespace Digest

theorem foldl_update (d : Digest) (pieces : List Bytes) :
    pieces.foldl (fun d piece => d.update piece) d = d.update pieces.flatten := by
  induction pieces generalizing d with
  | nil => exact (update_nil d).symm
  | cons piece pieces ih => rw [List.foldl_cons, ih, List.flatten_cons, update_append]

/-- A byte string comes to the same checksum in pieces and at once. -/
theorem result_of_pieces (kind : Checksum) (pieces : List Bytes) :
    (pieces.foldl (fun d piece => d.update piece) (start kind)).result
      = kind.compute pieces.flatten := by
  rw [foldl_update]
  rfl

end Digest

/-! ## A file in memory -/

namespace Update

variable {store : MemoryStore} {u : Update MemoryStore} {image : String} {content : Bytes}
  {m : Manifest}

theorem reads_memory (hcontent : store.contents? image = some content) :
    Reads image content (· = store) False := by
  intro offset files hfiles
  subst hfiles
  refine .inl ⟨files, rfl, ?_⟩
  show MemoryStore.read image offset checkedAtOnce files = _
  rw [MemoryStore.read, hcontent]

/-- The check of a file in memory always comes to a result, and leaves the update as it is. -/
theorem verify_memory (kind : Checksum)
    (hcontent : u.agent.files.contents? image = some content) :
    verify image m kind u
      = if Verified kind m content then .ok () u else .error .integrity u := by
  obtain ⟨later, rfl, hresult⟩ | ⟨hfails, -⟩ :=
    digestFile_ends (reads_memory hcontent) (.start kind) 0 rfl
  · have hread : onFiles (digestFile image (.start kind) 0) u
        = .ok (.ok ((Digest.start kind).update content, content.length)) u := by
      rw [onFiles, hresult, Nat.zero_max, List.drop_zero]
    rw [verify, bind_of_ok hread]
    dsimp only
    rw [apply_ite (fun act : Action MemoryStore Unit => act u), if_congr verified_iff rfl rfl]
    rfl
  · exact hfails.elim

end Update

/-! ## The check with words -/

namespace Machine

variable {store : MemoryStore} {name : String} {content chunk : Bytes} {offset : Nat}

/-- Read a file from an offset on into the front of a buffer, and count the bytes that were read. -/
def readFile (name : String) (offset : Nat) (buffer : Bytes) (store : MemoryStore) :
    Checked (Except StorageError (Nat × Bytes)) :=
  match store.contents? name with
  | none => pure (.error .notFound)
  | some content => do
    let rest ← slice content (min offset content.length) content.length
    let n := min rest.length buffer.length
    let data ← slice rest 0 n
    let buffer ← put buffer 0 data
    pure (.ok (n, buffer))

/-- Read a piece of a file and feed it to the digest, unless nothing is read. -/
def digestRound (name : String) (store : MemoryStore) :
    Cycle (Digest × Nat × Bytes) (Except StorageError (Digest × Nat)) := fun (d, size, chunk) => do
  match ← readFile name size chunk store with
  | .error e => pure (.done (.error e))
  | .ok (n, chunk) =>
    if n = 0 then pure (.done (.ok (d, size)))
    else do
      let piece ← slice chunk 0 n
      let size ← addShort size (n % UInt32.size)
      pure (.again (d.update piece, size, chunk))

/-- Check a file against a manifest. -/
def checkImage (image : String) (m : Manifest) (kind : Checksum) (store : MemoryStore) :
    Checked (Except UpdateError Unit) := do
  let chunk := List.replicate Update.checkedAtOnce 0
  match ← (digestRound image store).loop (.start kind, 0, chunk) with
  | .error e => pure (.error (.storage e))
  | .ok (d, size) =>
    if size ≠ m.size ∨ d.result.toNat ≠ m.checksum then pure (.error .integrity) else pure (.ok ())

/-- What is read lies in front of what is left of the buffer. -/
theorem readFile_eq (hcontent : store.contents? name = some content) (offset : Nat)
    (chunk : Bytes) :
    readFile name offset chunk store
      = let piece := (content.drop offset).take chunk.length
        pure (.ok (piece.length, piece ++ chunk.drop piece.length)) := by
  have hrest : (content.take content.length).drop (min offset content.length)
      = content.drop offset := by
    rw [List.take_length]
    exact List.drop_eq_drop_min.symm
  have hpiece : (content.drop offset).take (min (content.drop offset).length chunk.length)
      = (content.drop offset).take chunk.length := by
    rw [Nat.min_comm]
    exact List.take_eq_take_min.symm
  have hput : 0 + ((content.drop offset).take chunk.length).length ≤ chunk.length := by
    rw [Nat.zero_add]
    exact List.length_take_le _ _
  rw [readFile, hcontent]
  dsimp only
  rw [slice_eq (Nat.min_le_right _ _) (Nat.le_refl _), pure_bind, hrest,
    slice_zero (Nat.min_le_left _ _), pure_bind, hpiece, put_eq hput, pure_bind, List.take_zero,
    List.nil_append, Nat.zero_add, List.length_take, Nat.min_comm]

/-- A round reads a piece behind the last one, and moves the offset behind it if a word holds that.
The round that reads nothing is the last. -/
theorem digestRound_eq (hcontent : store.contents? name = some content)
    (hchunk : chunk.length < UInt32.size) (d : Digest) (offset : Nat) :
    digestRound name store (d, offset, chunk)
      = let piece := (content.drop offset).take chunk.length
        if piece.length = 0 then pure (.done (.ok (d, offset)))
        else addShort offset piece.length >>= fun size =>
          pure (.again (d.update piece, size, piece ++ chunk.drop piece.length)) := by
  have htaken : ((content.drop offset).take chunk.length).length ≤ chunk.length :=
    List.length_take_le _ _
  rw [digestRound, readFile_eq hcontent offset chunk, pure_bind]
  generalize (content.drop offset).take chunk.length = piece at htaken ⊢
  dsimp only
  split
  · rfl
  · have hroom : piece.length ≤ (piece ++ chunk.drop piece.length).length := by
      rw [List.length_append]
      exact Nat.le_add_right _ _
    rw [slice_zero hroom, pure_bind, List.take_left,
      Nat.mod_eq_of_lt (Nat.lt_of_le_of_lt htaken hchunk)]

/-- The loop over the pieces of a file ends, with the digest of what was left of the file and with
the length of the file, if a word holds that length. -/
theorem digestLoop_eq (hcontent : store.contents? name = some content)
    (hlength : content.length < UInt32.size) (d : Digest) (hoffset : offset ≤ content.length)
    (hpos : 0 < chunk.length) (hchunk : chunk.length < UInt32.size) :
    (digestRound name store).loop (d, offset, chunk)
      = pure (.ok (d.update (content.drop offset), content.length)) := by
  induction hn : content.length - offset using Nat.strongRecOn generalizing d offset chunk with
  | ind n ih =>
    subst hn
    have hround := digestRound_eq hcontent hchunk d offset
    have hcut := drop_eq_piece_append content offset chunk.length
    have htaken := List.length_take (i := chunk.length) (l := content.drop offset)
    rw [List.length_drop] at htaken
    generalize (content.drop offset).take chunk.length = piece at *
    dsimp only at hround
    split at hround
    · -- nothing is read at the end of the file only
      have hend : offset = content.length := by omega
      rw [Cycle.loop_of_done hround, hend, List.drop_length, Digest.update_nil]
    · rw [addShort_eq (by omega), pure_bind] at hround
      have hnext : (piece ++ chunk.drop piece.length).length = chunk.length := by
        rw [List.length_append, List.length_drop]
        omega
      rw [Cycle.loop_of_again hround,
        ih _ (by omega) (d.update piece) (by omega) (hnext ▸ hpos) (hnext ▸ hchunk) rfl, hcut,
        Digest.update_append]

/-- Behind a file that no word of 32 bits can measure the loop does not come: the round whose piece
ends there adds the piece to an offset that cannot take it. -/
theorem digestLoop_overflows (hcontent : store.contents? name = some content)
    (hlong : UInt32.size ≤ content.length) (d : Digest) (hoffset : offset < UInt32.size)
    (hpos : 0 < chunk.length) (hchunk : chunk.length < UInt32.size) :
    (digestRound name store).loop (d, offset, chunk) = throw .overflow := by
  induction hn : UInt32.size - offset using Nat.strongRecOn generalizing d offset chunk with
  | ind n ih =>
    subst hn
    have hround := digestRound_eq hcontent hchunk d offset
    have htaken := List.length_take (i := chunk.length) (l := content.drop offset)
    rw [List.length_drop] at htaken
    generalize (content.drop offset).take chunk.length = piece at *
    dsimp only at hround
    rw [if_neg (by omega)] at hround
    by_cases hword : offset + piece.length < UInt32.size
    · rw [addShort_eq hword, pure_bind] at hround
      have hnext : (piece ++ chunk.drop piece.length).length = chunk.length := by
        rw [List.length_append, List.length_drop]
        omega
      rw [Cycle.loop_of_again hround,
        ih _ (by omega) (d.update piece) hword (hnext ▸ hpos) (hnext ▸ hchunk) rfl]
    · rw [addShort, if_neg hword] at hround
      rw [Cycle.loop, hround]
      rfl

theorem chunk_pos : 0 < (List.replicate Update.checkedAtOnce (0 : UInt8)).length := by
  decide

theorem chunk_lt : (List.replicate Update.checkedAtOnce (0 : UInt8)).length < UInt32.size := by
  decide

/-- The check of a file that a word of 32 bits can measure comes to what the whole file says. -/
theorem checkImage_eq (m : Manifest) (kind : Checksum)
    (hcontent : store.contents? name = some content) (hlength : content.length < UInt32.size) :
    checkImage name m kind store
      = pure (if Update.Verified kind m content then .ok () else .error .integrity) := by
  rw [checkImage,
    digestLoop_eq hcontent hlength _ (Nat.zero_le _) chunk_pos chunk_lt, pure_bind]
  by_cases hverified : Update.Verified kind m content
  · rw [if_pos hverified]
    exact if_neg (not_or.2 ⟨not_not.2 hverified.size, not_not.2 hverified.checksum⟩)
  · rw [if_neg hverified]
    exact if_pos (not_and_or.1 fun h => hverified (Update.verified_iff.2 h))

/-- The check of a longer file is stopped, whatever its manifest says of it. -/
theorem checkImage_of_long (m : Manifest) (kind : Checksum)
    (hcontent : store.contents? name = some content) (hlong : UInt32.size ≤ content.length) :
    checkImage name m kind store = throw .overflow := by
  rw [checkImage, digestLoop_overflows hcontent hlong _ (by decide) chunk_pos chunk_lt]
  rfl

end Machine

/-! ## The check decides -/

/-- The check of a file in memory that is shorter than 2³² bytes passes exactly if the file is what
the manifest says, finds it wrong otherwise, and leaves the files as they are; with words it comes to
the same. The digest goes by the bytes and not by the pieces: a sum is the sum of the bytes modulo
2¹⁶, and a cyclic redundancy check is the remainder of the polynomial division. -/
theorem Update.verify_decides {u : Update MemoryStore} {image : String} {content : Bytes}
    {m : Manifest} (kind : Checksum) (hcontent : u.agent.files.contents? image = some content)
    (hlength : content.length < UInt32.size) :
    verify image m kind u
        = (if Verified kind m content then .ok () u else .error .integrity u) ∧
      Machine.checkImage image m kind u.agent.files
        = pure (if Verified kind m content then .ok () else .error .integrity) ∧
      (∀ (kind : Checksum) (pieces : List Bytes),
        (pieces.foldl (fun d piece => d.update piece) (Digest.start kind)).result
          = kind.compute pieces.flatten) ∧
      (∀ bs : Bytes, (Checksum.sum16.compute bs).toNat = (bs.map UInt8.toNat).sum % UInt16.size) ∧
      ∀ (bs : Bytes) (c : UInt32), Checksum.crc32.compute bs = c ↔
        Checksum.reflected 32 (~~~c).toNat = Checksum.crcRemainder bs :=
  ⟨verify_memory kind hcontent, Machine.checkImage_eq m kind hcontent hlength,
    Digest.result_of_pieces, Checksum.toNat_compute_sum16, Checksum.compute_crc32_eq_iff⟩

/-- One byte more than is read at once: the last byte counts, and it counts once. A manifest that
says one byte less is found wrong, although its checksum is the one of the first piece. -/
theorem Update.verify_decides_of_second_piece :
    let files : MemoryStore :=
      { maxFiles := 1, maxBytes := 80, files := [("fw05.bin", List.replicate 65 4)] }
    let u : Update MemoryStore := { agent := { files }, client := Client.new 64 }
    verify "fw05.bin" ⟨5, 260, 65⟩ .sum16 u = .ok () u ∧
      Machine.checkImage "fw05.bin" ⟨5, 260, 65⟩ .sum16 files = pure (.ok ()) ∧
      verify "fw05.bin" ⟨5, 256, 64⟩ .sum16 u = .error .integrity u := by
  intro files u
  have hcontent : u.agent.files.contents? "fw05.bin" = some (List.replicate 65 4) := by decide
  have hlength : (List.replicate 65 (4 : UInt8)).length < UInt32.size := by decide
  have hright : Verified .sum16 ⟨5, 260, 65⟩ (List.replicate 65 4) := by decide +kernel
  have hwrong : ¬Verified .sum16 ⟨5, 256, 64⟩ (List.replicate 65 4) := by decide +kernel
  obtain ⟨hpasses, hwords, -⟩ := verify_decides (m := ⟨5, 260, 65⟩) .sum16 hcontent hlength
  obtain ⟨hfails, -⟩ := verify_decides (m := ⟨5, 256, 64⟩) .sum16 hcontent hlength
  rw [if_pos hright] at hpasses hwords
  rw [if_neg hwrong] at hfails
  exact ⟨hpasses, hwords, hfails⟩

/-- A file of 2³² bytes comes to no verdict: its last piece takes the offset out of its word, so the
check is stopped where it should find that the file is not the empty one of the manifest. -/
theorem Machine.checkImage_overflows_of_long_file :
    let content : Bytes := List.replicate UInt32.size 0
    let files : MemoryStore :=
      { maxFiles := 1, maxBytes := UInt32.size, files := [("fw05.bin", content)] }
    files.contents? "fw05.bin" = some content ∧
      checkImage "fw05.bin" ⟨5, 0, 0⟩ .sum16 files = throw .overflow ∧
      checkImage "fw05.bin" ⟨5, 0, 0⟩ .sum16 files
        ≠ pure (if Update.Verified .sum16 ⟨5, 0, 0⟩ content then .ok () else .error .integrity) := by
  intro content files
  have hcontent : files.contents? "fw05.bin" = some content := List.lookup_cons_self
  have hlong : UInt32.size ≤ content.length := Nat.le_of_eq List.length_replicate.symm
  have hstopped := checkImage_of_long ⟨5, 0, 0⟩ .sum16 hcontent hlong
  refine ⟨hcontent, hstopped, fun hverdict => ?_⟩
  cases hstopped.symm.trans hverdict

end DeviceHttp
