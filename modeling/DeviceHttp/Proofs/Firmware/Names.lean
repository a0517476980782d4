import DeviceHttp.Firmware.LocalFile
import Mathlib.Data.List.Infix

/-!
# The names of an image's files

A root is at most six characters, so a name that is made from it is always short enough. The record
and an image are different files, a record is not taken for an image, and two versions share an
image file exactly if they agree modulo one hundred.
-/

namespace DeviceHttp

/-- A character takes four bytes at most. -/
theorem Utf8.length_encode_le (cs : List Char) : (Utf8.encode cs).length ≤ 4 * cs.length := by
  induction cs with
  | nil => exact Nat.le_refl _
  | cons c cs ih =>
    have hc : (String.utf8EncodeChar c).length ≤ 4 := by
      rw [String.length_utf8EncodeChar]
      exact c.utf8Size_le_four
    rw [Utf8.encode_cons, List.length_append, List.length_cons]
    omega

theorem Decimal.digit_injective {m n : Nat} (hm : m < 10) (hn : n < 10)
    (h : Decimal.digit m = Decimal.digit n) : m = n := by
  rw [← Decimal.digit_toNat hm, h, Decimal.digit_toNat hn]

theorem LetterCase.same_self (a : String) : LetterCase.same a a = true :=
  decide_eq_true rfl

namespace LocalFile

variable {v w : Nat}

/-- The name of the file that records the installed version. -/
def recordName (name : String) : String :=
  String.ofList (root name ++ ['.', 'v', 'e', 'r'])

/-- The name of the file that holds the image of a version. -/
def imageName (name : String) (version : Nat) : String :=
  String.ofList (root name ++ Decimal.twoDigits (version % 100) ++ ['.', 'b', 'i', 'n'])

theorem length_encode_root_le (name : String) : (Utf8.encode (root name)).length ≤ 24 :=
  calc (Utf8.encode (root name)).length
    _ ≤ 4 * (root name).length := Utf8.length_encode_le (root name)
    _ ≤ 4 * 6 := Nat.mul_le_mul_left 4 (List.length_take_le _ _)

/-- A root leaves room for eight bytes in a name. -/
theorem length_encode_root_append_le (name : String) {cs : List Char}
    (h : (Utf8.encode cs).length ≤ 8) :
    (Utf8.encode (root name ++ cs)).length ≤ FileName.capacity := by
  rw [Utf8.encode_append, List.length_append]
  exact Nat.add_le_add (length_encode_root_le name) h

theorem named_root (name : String) {cs : List Char} (h : (Utf8.encode cs).length ≤ 8) :
    named (root name ++ cs) = .ok (String.ofList (root name ++ cs)) := by
  refine if_pos (Utf8.fits_iff.2 ?_)
  rw [Utf8.ofString_ofList]
  exact length_encode_root_append_le name h

/-- Every image has a file for its record. -/
theorem versionFile_eq (name : String) : versionFile name = .ok (recordName name) :=
  named_root name (by decide)

theorem length_encode_twoDigits (v : Nat) :
    (Utf8.encode (Decimal.twoDigits (v % 100))).length = 2 := by
  have hdigit : ∀ d : Fin 10, (String.utf8EncodeChar (Decimal.digit d)).length = 1 := by decide
  have htens := hdigit ⟨v % 100 / 10, by omega⟩
  have hones := hdigit ⟨v % 100 % 10, by omega⟩
  rw [Decimal.twoDigits, Utf8.encode_cons, Utf8.encode_cons, Utf8.encode_nil, List.length_append,
    List.append_nil, htens, hones]

theorem length_encode_imageEnding (v : Nat) :
    (Utf8.encode (Decimal.twoDigits (v % 100) ++ ['.', 'b', 'i', 'n'])).length ≤ 8 := by
  rw [Utf8.encode_append, List.length_append, length_encode_twoDigits]
  decide

/-- Every version has a file for its image. -/
theorem imageFile_eq (name : String) (v : Nat) : imageFile name v = .ok (imageName name v) := by
  have hnamed := named_root name (length_encode_imageEnding v)
  rwa [← List.append_assoc] at hnamed

/-- The record's name can be stored, as far as its length goes. -/
theorem length_recordName_le (name : String) :
    (Utf8.ofString (recordName name)).length ≤ FileName.capacity := by
  rw [recordName, Utf8.ofString_ofList]
  exact length_encode_root_append_le name (by decide)

theorem length_imageName_le (name : String) (v : Nat) :
    (Utf8.ofString (imageName name v)).length ≤ FileName.capacity := by
  rw [imageName, Utf8.ofString_ofList, List.append_assoc]
  exact length_encode_root_append_le name (length_encode_imageEnding v)

/-- The digits of a name tell the version up to multiples of one hundred. -/
theorem imageName_eq_iff (name : String) :
    imageName name v = imageName name w ↔ v % 100 = w % 100 := by
  constructor
  · intro h
    have hlists := String.ofList_injective h
    rw [List.append_cancel_right_eq, List.append_cancel_left_eq] at hlists
    obtain ⟨htens, hones⟩ := List.cons.inj hlists
    have htens := Decimal.digit_injective (by omega) (by omega) htens
    have hones := Decimal.digit_injective (by omega) (by omega) (List.cons.inj hones).1
    omega
  · intro h
    rw [imageName, imageName, h]

/-- The name ends in `.bin`, in any case. -/
def NamesImage (name : String) : Prop :=
  ∃ stem ending : String, name = stem ++ ending ∧ LetterCase.same ending ".bin" = true

/-- A name is taken for one of an image exactly if it ends like one, in letters of either case. -/
theorem isImage_iff (name : String) : isImage name = true ↔ NamesImage name := by
  rw [isImage, List.isSuffixOf_iff_suffix, LetterCase.fold]
  constructor
  · intro ⟨_, hfold⟩
    obtain ⟨stem, ending, hname, -, hending⟩ := List.map_eq_append_iff.1 hfold.symm
    refine ⟨String.ofList stem, String.ofList ending, ?_, ?_⟩
    · rw [← String.ofList_append, ← hname, String.ofList_toList]
    · rw [LetterCase.same, decide_eq_true_iff, LetterCase.fold, String.toList_ofList, hending]
      rfl
  · intro ⟨stem, ending, hname, hsame⟩
    have hending : ending.toList.map Char.toLower = ['.', 'b', 'i', 'n'] := of_decide_eq_true hsame
    rw [hname, String.toList_append, List.map_append, hending]
    exact List.suffix_append _ _

theorem isImage_imageName (name : String) (v : Nat) : isImage (imageName name v) = true := by
  rw [isImage, imageName, LetterCase.fold, String.toList_ofList, List.map_append]
  exact List.isSuffixOf_iff_suffix.2 (List.suffix_append _ _)

/-- The record is not taken for an image. -/
theorem isImage_recordName (name : String) : isImage (recordName name) = false := by
  rw [isImage, recordName, LetterCase.fold, String.toList_ofList, List.map_append]
  refine Bool.eq_false_iff.2 fun h => ?_
  have hsuffix := List.isSuffixOf_iff_suffix.1 h
  have hends : ['.', 'v', 'e', 'r'].map Char.toLower <:+ _ :=
    List.suffix_append ((root name).map Char.toLower) _
  exact absurd (List.suffix_of_suffix_length_le hsuffix hends (Nat.le_refl _)) (by decide)

theorem ne_of_isImage {name other : String} (hname : isImage name = true)
    (hother : isImage other = false) : name ≠ other := by
  intro heq
  rw [heq, hother] at hname
  cases hname

theorem recordName_ne_imageName (name : String) (v : Nat) : recordName name ≠ imageName name v :=
  (ne_of_isImage (isImage_imageName name v) (isImage_recordName name)).symm

end LocalFile

end DeviceHttp
