import DeviceHttp.Proofs.Firmware.Cleanup
import DeviceHttp.Proofs.Firmware.Names
import DeviceHttp.Proofs.Machine.Words
import Mathlib.Data.Nat.ModEq

/-!
# The names of an image's files, byte by byte

A device counts a text in bytes, and is stopped if it cuts one inside a character. The places where a
text may be cut are those in front of which whole characters stand (`isBoundary_encode_iff`), so
neither the test for an image nor the root of a name stops it (`isImage_eq`, `root_eq`), and there is
room for every name that is made from a root (`versionFile_eq`, `imageFile_eq`). The names of a record
and of an image are therefore never mistaken for each other (`LocalFile.names_apart`).
-/

namespace DeviceHttp

namespace Machine

/-! ## Places in a text -/

/-- Whether a character starts at this place of a text, or the text ends there. -/
def isBoundary (bytes : Bytes) (i : Nat) : Bool :=
  match bytes[i]? with
  | some b => b.IsUTF8FirstByte
  | none => i = bytes.length

/-- The part of a text between two places. -/
def cut (bytes : Bytes) (start stop : Nat) : Checked Bytes :=
  if isBoundary bytes start ∧ isBoundary bytes stop then slice bytes start stop
  else throw .outOfRange

/-- The characters of a text with the places where they start. -/
def charIndices (start : Nat) : List Char → List (Nat × Char)
  | [] => []
  | c :: cs => (start, c) :: charIndices (start + c.utf8Size) cs

/-- A byte in lower case. -/
def lower (b : UInt8) : UInt8 :=
  if 'A'.toUInt8 ≤ b ∧ b ≤ 'Z'.toUInt8 then b + 32 else b

/-- The first `i` bytes of a text are whole characters. -/
def Whole (cs : List Char) (i : Nat) : Prop :=
  ∃ front rest, cs = front ++ rest ∧ i = (Utf8.encode front).length

/-- In front of nothing there is one place only. -/
theorem whole_nil {i : Nat} : Whole [] i ↔ i = 0 := by
  constructor
  · intro h
    obtain ⟨front, rest, hcs, hi⟩ := h
    rw [hi, (List.append_eq_nil_iff.1 hcs.symm).1]
    rfl
  · intro h
    exact ⟨[], [], rfl, h⟩

/-- A place is at the front of a text, or a whole character behind it and at a place of the rest. -/
theorem whole_cons {c : Char} {cs : List Char} {i : Nat} :
    Whole (c :: cs) i ↔
      i = 0 ∨ (String.utf8EncodeChar c).length ≤ i ∧
        Whole cs (i - (String.utf8EncodeChar c).length) := by
  constructor
  · intro h
    obtain ⟨front, rest, hcs, hi⟩ := h
    rcases List.cons_eq_append_iff.1 hcs with ⟨hfront, -⟩ | ⟨front', hfront, hrest⟩
    · exact .inl (by rw [hi, hfront]; rfl)
    · rw [hfront, Utf8.encode_cons, List.length_append] at hi
      exact .inr ⟨by omega, front', rest, hrest, by omega⟩
  · intro h
    rcases h with hi | ⟨hle, front, rest, hcs, hi⟩
    · exact ⟨[], c :: cs, rfl, hi⟩
    · refine ⟨c :: front, rest, congrArg (c :: ·) hcs, ?_⟩
      rw [Utf8.encode_cons, List.length_append]
      omega

theorem isBoundary_nil {i : Nat} : isBoundary [] i = true ↔ i = 0 := by
  rw [isBoundary, List.getElem?_nil]
  exact decide_eq_true_iff

/-- Only the first byte of a character starts one. -/
theorem isBoundary_inside {c : Char} {bs : Bytes} {i : Nat}
    (h : i < (String.utf8EncodeChar c).length) :
    isBoundary (String.utf8EncodeChar c ++ bs) i = true ↔ i = 0 := by
  rw [isBoundary, List.getElem?_append_left h, List.getElem?_eq_getElem h]
  exact decide_eq_true_iff.trans UInt8.isUTF8FirstByte_getElem_utf8EncodeChar

theorem isBoundary_behind {as bs : Bytes} {i : Nat} (h : as.length ≤ i) :
    isBoundary (as ++ bs) i = isBoundary bs (i - as.length) := by
  rw [isBoundary, isBoundary, List.getElem?_append_right h, List.length_append]
  cases bs[i - as.length]? with
  | some b => rfl
  | none => exact decide_eq_decide.2 (by omega)

/-- The places where a text may be cut are those behind whole characters. -/
theorem isBoundary_encode_iff {cs : List Char} {i : Nat} :
    isBoundary (Utf8.encode cs) i = true ↔ Whole cs i := by
  induction cs generalizing i with
  | nil => exact isBoundary_nil.trans whole_nil.symm
  | cons c cs ih =>
    have hpos : 0 < (String.utf8EncodeChar c).length := by
      rw [String.length_utf8EncodeChar]
      exact c.utf8Size_pos
    rw [Utf8.encode_cons, whole_cons]
    rcases Nat.lt_or_ge i (String.utf8EncodeChar c).length with hinside | hbehind
    · rw [isBoundary_inside hinside, or_iff_left fun h => Nat.not_le.2 hinside h.1]
    · rw [isBoundary_behind hbehind, ih, or_iff_right (by omega), and_iff_right hbehind]

/-- Between whole characters a text can be cut. -/
theorem cut_encode (front part rest : List Char) :
    cut (Utf8.encode (front ++ part ++ rest)) (Utf8.encode front).length
        (Utf8.encode (front ++ part)).length
      = pure (Utf8.encode part) := by
  have hstart := isBoundary_encode_iff.2
    ⟨front, part ++ rest, List.append_assoc front part rest, rfl⟩
  have hstop := isBoundary_encode_iff.2 ⟨front ++ part, rest, rfl, rfl⟩
  rw [cut, if_pos ⟨hstart, hstop⟩, slice_eq, Utf8.encode_append (front ++ part), List.take_left,
    Utf8.encode_append, List.drop_left]
  · rw [Utf8.encode_append, List.length_append]
    exact Nat.le_add_right _ _
  · rw [Utf8.encode_append (front ++ part), List.length_append]
    exact Nat.le_add_right _ _

/-- Each character comes with the number of bytes in front of it. -/
theorem getElem?_charIndices (start k : Nat) (cs : List Char) :
    (charIndices start cs)[k]?
      = cs[k]?.map fun c => (start + (Utf8.encode (cs.take k)).length, c) := by
  induction cs generalizing start k with
  | nil => rfl
  | cons c cs ih =>
    cases k with
    | zero => rfl
    | succ k =>
      rw [charIndices, List.getElem?_cons_succ, ih, List.getElem?_cons_succ, List.take_succ_cons,
        Utf8.encode_cons, List.length_append, String.length_utf8EncodeChar, Nat.add_assoc]

/-! ## Letters in both cases -/

/-- Lower case changes nothing but the letters of ASCII, and those are bytes. -/
theorem map_lower_utf8EncodeChar (c : Char) :
    (String.utf8EncodeChar c).map lower = String.utf8EncodeChar c.toLower := by
  rcases Nat.lt_or_ge c.toNat 128 with hascii | hwide
  · have hall : ∀ n : Fin 128, (String.utf8EncodeChar (Char.ofNat n)).map lower
        = String.utf8EncodeChar (Char.ofNat n).toLower := by decide +kernel
    simpa only [Char.ofNat_toNat] using hall ⟨c.toNat, hascii⟩
  · have hsame : c.toLower = c := dif_neg fun h => by
      have hle : c.toNat ≤ 'Z'.toNat := h.2
      exact absurd (Nat.le_trans hwide hle) (by decide)
    have hlower : ∀ b ∈ String.utf8EncodeChar c, lower b = id b := by
      intro b hb
      have hbyte := Utf8.le_toNat_of_mem_utf8EncodeChar hwide hb
      refine if_neg fun h => ?_
      exact absurd (Nat.le_trans hbyte (UInt8.le_iff_toNat_le.1 h.2)) (by decide)
    rw [hsame, List.map_congr_left hlower, List.map_id]

/-- The bytes of a text in lower case are those of the text in lower case. -/
theorem map_lower_encode (cs : List Char) :
    (Utf8.encode cs).map lower = Utf8.encode (cs.map Char.toLower) := by
  induction cs with
  | nil => rfl
  | cons c cs ih =>
    rw [Utf8.encode_cons, List.map_append, map_lower_utf8EncodeChar, ih, List.map_cons,
      Utf8.encode_cons]

/-! ## Names of files -/

/-- Whether a file holds an image. -/
def isImage (name : String) : Checked Bool := do
  let bytes := Utf8.ofString name
  if 4 ≤ bytes.length then do
    let start ← sub bytes.length 4
    if isBoundary bytes start then do
      let ending ← cut bytes start bytes.length
      pure (ending.map lower = (Utf8.ofString ".bin").map lower)
    else pure false
  else pure false

/-- The bytes of an image's name that its files are named after. -/
def root (name : String) : Checked Bytes :=
  match (charIndices 0 name.toList)[LocalFile.rootLength]? with
  | some (stop, _) => cut (Utf8.ofString name) 0 stop
  | none => pure (Utf8.ofString name)

/-- Write pieces behind the front of a name, as long as there is room. -/
def writeName (file : Bytes) : List Bytes → Except UpdateError Bytes
  | [] => .ok file
  | piece :: pieces =>
    if file.length + piece.length ≤ FileName.capacity then writeName (file ++ piece) pieces
    else .error (.storage .invalidName)

/-- A file that is named after an image: the root of its name, and pieces behind it. -/
def named (name : String) (pieces : List Bytes) : Checked (Except UpdateError Bytes) := do
  let root ← root name
  pure (writeName [] (root :: pieces))

/-- The file that records the installed version. -/
def versionFile (name : String) : Checked (Except UpdateError Bytes) :=
  named name [Utf8.ofString ".ver"]

/-- The file that holds the image of a version. -/
def imageFile (name : String) (version : Nat) : Checked (Except UpdateError Bytes) :=
  named name [Utf8.encode (Decimal.twoDigits (version % 100)), Utf8.ofString ".bin"]

/-- The ending of an image's name is four bytes, which are a text. -/
theorem exists_ending_of_isImage {name : String} (h : LocalFile.isImage name = true) :
    ∃ front ending, name.toList = front ++ ending ∧ (Utf8.encode ending).length = 4 := by
  rw [LocalFile.isImage, List.isSuffixOf_iff_suffix, LetterCase.fold] at h
  obtain ⟨_, hfold⟩ := h
  obtain ⟨front, ending, hname, -, hending⟩ := List.map_eq_append_iff.1 hfold.symm
  refine ⟨front, ending, hname, ?_⟩
  rw [← List.length_map lower, map_lower_encode, hending]
  rfl

/-- Whether a name is one of an image is told by its last four bytes, if these are whole
characters. -/
theorem isImage_iff_ending {name : String} {front ending : List Char}
    (hname : name.toList = front ++ ending) (hfour : (Utf8.encode ending).length = 4) :
    LocalFile.isImage name = true ↔
      (Utf8.encode ending).map lower = (Utf8.ofString ".bin").map lower := by
  rw [LocalFile.isImage, List.isSuffixOf_iff_suffix, LetterCase.fold, hname, List.map_append]
  constructor
  · intro h
    obtain ⟨stem, hstem⟩ := h
    have hbytes := congrArg Utf8.encode hstem
    rw [Utf8.encode_append, Utf8.encode_append, ← map_lower_encode ending] at hbytes
    exact (List.append_inj' hbytes (by rw [List.length_map, hfour]; rfl)).2.symm
  · intro hsame
    rw [map_lower_encode] at hsame
    rw [Utf8.encode_injective (hsame.trans (map_lower_encode _))]
    exact List.suffix_append _ _

/-- Where the last four bytes are a text, the test looks at that text. -/
theorem isImage_of_ending {name : String} {front ending : List Char}
    (hname : name.toList = front ++ ending) (hfour : (Utf8.encode ending).length = 4) :
    isImage name
      = pure (decide ((Utf8.encode ending).map lower = (Utf8.ofString ".bin").map lower)) := by
  have hlength : (Utf8.ofString name).length = (Utf8.encode front).length + 4 := by
    rw [Utf8.ofString, hname, Utf8.encode_append, List.length_append, hfour]
  have hstart : (Utf8.ofString name).length - 4 = (Utf8.encode front).length := by omega
  have hboundary : isBoundary (Utf8.ofString name) (Utf8.encode front).length = true :=
    isBoundary_encode_iff.2 ⟨front, ending, hname, rfl⟩
  have hcut := cut_encode front ending []
  rw [List.append_nil, ← hname] at hcut
  rw [isImage, if_pos (by omega), sub_eq (by omega), pure_bind, hstart, if_pos hboundary]
  exact congrArg (· >>= _) hcut

/-- The test for an image cuts no character, and tells what the characters tell. It cuts four bytes
off the end only if a character starts there. -/
theorem isImage_eq (name : String) : isImage name = pure (LocalFile.isImage name) := by
  by_cases hends : ∃ front ending, name.toList = front ++ ending ∧ (Utf8.encode ending).length = 4
  · obtain ⟨front, ending, hname, hfour⟩ := hends
    rw [isImage_of_ending hname hfour]
    rw [← Bool.decide_congr (isImage_iff_ending hname hfour), Bool.decide_eq_true]
  · have himage : LocalFile.isImage name = false :=
      Bool.eq_false_iff.2 fun h => hends (exists_ending_of_isImage h)
    rw [himage, isImage]
    split
    · next hlong =>
      rw [sub_eq hlong, pure_bind, if_neg]
      intro hboundary
      obtain ⟨front, ending, hname, hstart⟩ := isBoundary_encode_iff.1 hboundary
      refine hends ⟨front, ending, hname, ?_⟩
      have hlength : (Utf8.ofString name).length
          = (Utf8.encode front).length + (Utf8.encode ending).length := by
        rw [Utf8.ofString, hname, Utf8.encode_append, List.length_append]
      omega
    · rfl

/-- The root of a name is cut between two characters, so the cut by bytes is one that can be
made. -/
theorem root_eq (name : String) : root name = pure (Utf8.encode (LocalFile.root name)) := by
  rw [root, getElem?_charIndices]
  cases hseventh : name.toList[LocalFile.rootLength]? with
  | none =>
    rw [LocalFile.root, List.take_of_length_le (List.getElem?_eq_none_iff.1 hseventh)]
    rfl
  | some c =>
    have hcut := cut_encode [] (LocalFile.root name) (name.toList.drop LocalFile.rootLength)
    rw [List.nil_append, LocalFile.root, List.take_append_drop] at hcut
    rw [Option.map_some, Nat.zero_add]
    exact hcut

/-- Parts of a name are written one behind the other, if all of them fit. -/
theorem writeName_eq {file : Bytes} {pieces : List Bytes}
    (h : (file ++ pieces.flatten).length ≤ FileName.capacity) :
    writeName file pieces = .ok (file ++ pieces.flatten) := by
  induction pieces generalizing file with
  | nil => rw [writeName, List.flatten_nil, List.append_nil]
  | cons piece pieces ih =>
    rw [List.flatten_cons, ← List.append_assoc] at h ⊢
    have hroom : file.length + piece.length ≤ FileName.capacity := by
      rw [List.length_append, List.length_append] at h
      omega
    rw [writeName, if_pos hroom, ih h]

/-- A root leaves room for eight bytes of a file name, so with a suffix of that size nothing is cut
and nothing fails. -/
theorem named_eq (name : String) {pieces : List Bytes} (h : pieces.flatten.length ≤ 8) :
    named name pieces
      = pure (.ok (Utf8.encode (LocalFile.root name) ++ pieces.flatten)) := by
  have hroom : ([] ++ (Utf8.encode (LocalFile.root name) :: pieces).flatten).length
      ≤ FileName.capacity := by
    rw [List.nil_append, List.flatten_cons, List.length_append]
    exact Nat.add_le_add (LocalFile.length_encode_root_le name) h
  rw [named, root_eq, pure_bind, writeName_eq hroom, List.nil_append, List.flatten_cons]

theorem versionFile_eq (name : String) :
    versionFile name = pure (.ok (Utf8.ofString (LocalFile.recordName name))) := by
  rw [versionFile, named_eq name (by decide), LocalFile.recordName,
    Utf8.ofString_ofList (_ ++ _), Utf8.encode_append]
  rfl

/-- The name of an image is written with two digits of its version, and never fails. -/
theorem imageFile_eq (name : String) (version : Nat) :
    imageFile name version = pure (.ok (Utf8.ofString (LocalFile.imageName name version))) := by
  have hpieces : [Utf8.encode (Decimal.twoDigits (version % 100)), Utf8.ofString ".bin"].flatten
      = Utf8.encode (Decimal.twoDigits (version % 100) ++ ['.', 'b', 'i', 'n']) := by
    rw [Utf8.encode_append]
    rfl
  have hshort := LocalFile.length_encode_imageEnding version
  rw [← hpieces] at hshort
  rw [imageFile, named_eq name hshort, hpieces, LocalFile.imageName,
    Utf8.ofString_ofList (_ ++ _), List.append_assoc, Utf8.encode_append (LocalFile.root name)]

end Machine

/-! ## Records and images -/

open FileMap (Sound contents)

/-- The names of a record and of an image start with the same root, are short enough, and are told
apart by their endings, so no cleanup deletes a record. Two versions have the same image file exactly
if they agree modulo one hundred. -/
theorem LocalFile.names_apart (name : String) (version : Nat) :
    ∃ root record image : String,
      root.toList = name.toList.take 6 ∧
      record = root ++ ".ver" ∧
      image = root ++ String.ofList (Decimal.twoDigits (version % 100)) ++ ".bin" ∧
      versionFile name = .ok record ∧ imageFile name version = .ok image ∧
      Machine.versionFile name = pure (.ok (Utf8.ofString record)) ∧
      Machine.imageFile name version = pure (.ok (Utf8.ofString image)) ∧
      record.utf8ByteSize ≤ 32 ∧ image.utf8ByteSize ≤ 32 ∧
      isImage image = true ∧ isImage record = false ∧
      (∀ file, Machine.isImage file = pure (isImage file)) ∧
      (∀ other w, imageFile other w ≠ .ok record) ∧
      (∀ w, imageFile name w = .ok image ↔ version ≡ w [MOD 100]) ∧
      (∀ {φ : Type} [FileSystem φ] (keep : String) (u : Update (Monitored φ)),
        ∃ removed w added, Update.removeOtherImages keep u = .ok removed w ∧
          w.agent.files.journal = u.agent.files.journal ++ added ∧
          ∀ outcome, ⟨.remove record, outcome⟩ ∉ added) ∧
      ∀ {φ : Type} [FileSystem φ] [FileMap φ] (keep : String) (u : Update φ),
        Sound u.agent.files → ∃ removed w, Update.removeOtherImages keep u = .ok removed w ∧
          contents w.agent.files record = contents u.agent.files record := by
  refine ⟨String.ofList (LocalFile.root name), recordName name, imageName name version,
    String.toList_ofList, String.ofList_append, ?_, versionFile_eq name, imageFile_eq name version,
    Machine.versionFile_eq name, Machine.imageFile_eq name version, ?_, ?_,
    isImage_imageName name version, isImage_recordName name, Machine.isImage_eq,
    fun other w hclash => ?_, fun w => ?_,
    Update.removeOtherImages_spares (isImage_recordName name), fun keep u hsound => ?_⟩
  · rw [imageName, String.ofList_append, String.ofList_append]
  · rw [← Utf8.length_ofString]
    exact length_recordName_le name
  · rw [← Utf8.length_ofString]
    exact length_imageName_le name version
  · rw [imageFile_eq] at hclash
    exact ne_of_isImage (isImage_imageName other w) (isImage_recordName name) (Except.ok.inj hclash)
  · rw [imageFile_eq, Except.ok.injEq, imageName_eq_iff]
    exact eq_comm
  · obtain ⟨removed, files, hcleanup, -, hkept⟩ := Update.removeOtherImages_ends keep u hsound
    exact ⟨removed, _, hcleanup, hkept _ (.inl (isImage_recordName name))⟩

/-- The widest characters: the root alone takes twenty-four bytes. -/
theorem LocalFile.names_apart_of_wide_characters :
    let files : MemoryStore :=
      { maxFiles := 2, maxBytes := 8, files := [("𝄞𝄞𝄞𝄞𝄞𝄞.ver", [50]), ("𝄞𝄞𝄞𝄞𝄞𝄞22.bin", [1])] }
    let u : Update MemoryStore := { agent := { files }, client := Client.new 64 }
    versionFile "𝄞𝄞𝄞𝄞𝄞𝄞𝄞𝄞" = .ok "𝄞𝄞𝄞𝄞𝄞𝄞.ver" ∧
      imageFile "𝄞𝄞𝄞𝄞𝄞𝄞𝄞𝄞" 123 = .ok "𝄞𝄞𝄞𝄞𝄞𝄞23.bin" ∧
      imageFile "𝄞𝄞𝄞𝄞𝄞𝄞𝄞𝄞" 23 = .ok "𝄞𝄞𝄞𝄞𝄞𝄞23.bin" ∧
      ∃ removed w, Update.removeOtherImages "𝄞𝄞𝄞𝄞𝄞𝄞23.bin" u = .ok removed w ∧
        contents w.agent.files "𝄞𝄞𝄞𝄞𝄞𝄞.ver" = some [50] := by
  intro files u
  have hsound : Sound u.agent.files := by
    show files.Sound
    decide +kernel
  have hthere : contents u.agent.files "𝄞𝄞𝄞𝄞𝄞𝄞.ver" = some [50] := by decide +kernel
  have hversion : versionFile "𝄞𝄞𝄞𝄞𝄞𝄞𝄞𝄞" = .ok "𝄞𝄞𝄞𝄞𝄞𝄞.ver" := by decide +kernel
  have himage : imageFile "𝄞𝄞𝄞𝄞𝄞𝄞𝄞𝄞" 123 = .ok "𝄞𝄞𝄞𝄞𝄞𝄞23.bin" := by decide +kernel
  obtain ⟨root, record, image, -, -, -, hrecord, hmade, -, -, -, -, -, -, -, -, hagain, -, hkeeps⟩ :=
    names_apart "𝄞𝄞𝄞𝄞𝄞𝄞𝄞𝄞" 123
  obtain rfl := Except.ok.inj (hversion.symm.trans hrecord)
  obtain rfl := Except.ok.inj (himage.symm.trans hmade)
  obtain ⟨removed, w, hcleanup, hkept⟩ := hkeeps "𝄞𝄞𝄞𝄞𝄞𝄞23.bin" u hsound
  exact ⟨hversion, himage, (hagain 23).2 rfl, removed, w, hcleanup, hkept.trans hthere⟩

end DeviceHttp
