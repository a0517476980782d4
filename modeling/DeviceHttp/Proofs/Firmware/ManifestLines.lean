import DeviceHttp.Firmware.Manifest

/-!
# Manifest lines

A line that is a manifest has three fields, and the first of them is the version. The reader of a
record takes the digits at the front of the line instead. The two agree, but for a plus sign, which
may stand in front of a field and which is no digit (`Manifest.leadingVersion_of_parse`).
-/

namespace DeviceHttp

/-! ## Blanks and fields -/

namespace Blank

/-- Trimming takes nothing out of the middle. -/
theorem length_encode_trim_le (cs : List Char) :
    (Utf8.encode (trim cs)).length ≤ (Utf8.encode cs).length := by
  obtain ⟨front, back, hcs, -, -⟩ := pads_trim cs
  have hbytes := congrArg (fun l => (Utf8.encode l).length) hcs
  simp only [Utf8.encode_append, List.length_append] at hbytes
  omega

end Blank

/-- The first field ends in front of the first separator. -/
theorem Cut.first_field {α : Type} [DecidableEq α] {sep : α} {l first second : List α}
    {others : List (List α)} (h : fields sep l = first :: second :: others) :
    ∃ rest, l = first ++ sep :: rest := by
  have hl := intercalate_fields sep l
  rw [h, intercalate_cons_cons] at hl
  exact ⟨_, hl.symm⟩

namespace Manifest

variable {text : String} {m : Manifest}

/-- A line that is a manifest has three fields, which are numbers once the blanks around them are
gone. -/
theorem fields_of_parse (h : parse text = .ok m) :
    ∃ version checksum size,
      Cut.fields ',' (Blank.trim text.toList) = [version, checksum, size] ∧
      readField version = some m.version ∧ readField checksum = some m.checksum ∧
      readField size = some m.size := by
  have hread : read? text.toList = some m := by
    unfold parse at h
    split at h
    · next hread => rw [hread, Except.ok.inj h]
    · cases h
  unfold read? at hread
  split at hread
  · next version checksum size hfields =>
    obtain ⟨v, hv, hread⟩ := Option.bind_eq_some_iff.1 hread
    obtain ⟨c, hc, hread⟩ := Option.bind_eq_some_iff.1 hread
    obtain ⟨s, hs, rfl⟩ := Option.map_eq_some_iff.1 hread
    exact ⟨version, checksum, size, hfields, hv, hc, hs⟩
  · cases hread

theorem eq_malformedManifest_of_parse {e : UpdateError} (h : parse text = .error e) :
    e = .malformedManifest := by
  unfold parse at h
  split at h
  · cases h
  · exact (Except.error.inj h).symm

/-- A plus sign stands in front of the version. -/
def Signed (text : String) : Prop :=
  (Blank.trim text.toList).head? = some '+'

instance (text : String) : Decidable (Signed text) :=
  inferInstanceAs (Decidable (_ = _))

/-- The digits at the front of a manifest are its version, unless a plus sign stands there: a field
may have one, and the front of a record may not. -/
theorem leadingVersion_of_parse (h : parse text = .ok m) :
    leadingVersion (Utf8.encode (Blank.trim text.toList))
      = if Signed text then none else some m.version := by
  obtain ⟨first, second, third, hfields, hversion, -, -⟩ := fields_of_parse h
  obtain ⟨rest, hline⟩ := Cut.first_field hfields
  rw [leadingVersion, Utf8.decode?_encode, Option.bind_some, Blank.trimStart_trim]
  have hhead {c : Char} (hc : first.head? = some c) :
      (Blank.trim text.toList).head? = some c := by
    rw [hline, List.head?_append, hc]
    rfl
  -- the line is trimmed, so blanks stand behind the first field only
  have hstart : Blank.trimStart first = first :=
    Blank.trimStart_of_head fun c hc => Blank.head_trim (hhead hc)
  obtain ⟨blanks, hfirst, hblanks⟩ := Blank.trimEnd_append first
  have htrim : Blank.trim first = Blank.trimEnd first := by rw [Blank.trim, hstart]
  rw [readField, htrim] at hversion
  have hbehind : ∀ c, (blanks ++ ',' :: rest).head? = some c → c.isDigit = false := by
    intro c hc
    cases blanks with
    | nil =>
      obtain rfl : ',' = c := Option.some.inj hc
      rfl
    | cons b blanks =>
      obtain rfl : b = c := Option.some.inj hc
      have hblank := hblanks b (List.mem_cons_self ..)
      rw [Bool.eq_false_iff]
      intro hdigit
      rw [Blank.isBlank_of_isDigit hdigit] at hblank
      cases hblank
  have hwhole : Blank.trim text.toList = Blank.trimEnd first ++ (blanks ++ ',' :: rest) := by
    rw [← List.append_assoc, ← hfirst]
    exact hline
  rcases Decimal.number?_cases hversion with ⟨ds, hplus, -⟩ | ⟨hplus, hds⟩
  · have hsigned : Signed text := by
      rw [Signed, hwhole, hplus]
      rfl
    rw [if_pos hsigned, hwhole, hplus]
    rfl
  · obtain ⟨hne, hdigits, hlt, hvalue⟩ := Decimal.digits?_eq_some_iff.1 hds
    have hunsigned : ¬ Signed text := by
      obtain ⟨c, cs, hcons⟩ := List.exists_cons_of_ne_nil hne
      rw [Signed, hwhole, hcons]
      rwa [hcons] at hplus
    rw [if_neg hunsigned, hwhole, Decimal.span_of_digits hdigits hbehind]
    exact hds

end Manifest

end DeviceHttp
