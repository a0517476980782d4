import DeviceHttp.Proofs.Firmware.ManifestLines

/-!
# The grammar of a manifest

A text spells a manifest if it has three fields between its commas, blanks at its ends aside, and
each field spells a number, with blanks around it and a plus sign in front or without
(`Manifest.SpelledBy`). The parser accepts these texts and no others, among them the three numbers of
every manifest in decimal, with whatever blanks around them (`Manifest.parse_accepts_fields`).
-/

namespace DeviceHttp

open Blank (isBlank Pads Bare)

namespace Manifest

/-! ## The grammar -/

/-- A field is the digits of a number. A plus sign may stand in front of them, and blanks around. -/
def SpellsNumber (field : List Char) (n : Nat) : Prop :=
  ∃ sign digits, Pads (sign ++ digits) field ∧ (sign = [] ∨ sign = ['+']) ∧ digits ≠ [] ∧
    (∀ c ∈ digits, c.isDigit = true) ∧ Decimal.value digits = n ∧ n < UInt32.size

/-- A text, without the blanks at its ends, is cut at its commas into these fields. -/
structure Splits (cs version checksum size : List Char) : Prop where
  cut : ∃ line, Pads line cs ∧ Bare line ∧ line = version ++ ',' :: (checksum ++ ',' :: size)
  version : ',' ∉ version
  checksum : ',' ∉ checksum
  size : ',' ∉ size

/-- The characters are a text of this manifest. -/
def SpelledBy (m : Manifest) (cs : List Char) : Prop :=
  ∃ version checksum size, Splits cs version checksum size ∧ SpellsNumber version m.version ∧
    SpellsNumber checksum m.checksum ∧ SpellsNumber size m.size

/-! ## The parser against the grammar -/

/-- Digits, and a plus sign in front of them, have no blanks at their ends. -/
theorem bare_of_digits {sign digits : List Char} (hsign : sign = [] ∨ sign = ['+'])
    (hne : digits ≠ []) (hdigits : ∀ c ∈ digits, c.isDigit = true) : Bare (sign ++ digits) where
  head c hc := by
    rcases hsign with rfl | rfl
    · exact Blank.isBlank_of_isDigit (hdigits c (List.mem_of_mem_head? hc))
    · obtain rfl := Option.some.inj hc
      decide
  last c hc := by
    rw [List.getLast?_append, List.getLast?_eq_some_getLast hne, Option.some_or] at hc
    obtain rfl := Option.some.inj hc
    exact Blank.isBlank_of_isDigit (hdigits _ (List.getLast_mem hne))

/-- A field is read as a number exactly if it spells one: blanks around it, one plus sign at most,
digits, and a value in range. -/
theorem readField_eq_some_iff {field : List Char} {n : Nat} :
    readField field = some n ↔ SpellsNumber field n := by
  rw [readField, Decimal.number?_eq_some_iff]
  constructor
  · rintro ⟨sign, digits, htrim, hsign, hread⟩
    obtain ⟨hne, hdigits, hlt, rfl⟩ := Decimal.digits?_eq_some_iff.1 hread
    exact ⟨sign, digits, htrim ▸ Blank.pads_trim field, hsign, hne, hdigits, rfl, hlt⟩
  · rintro ⟨sign, digits, hpads, hsign, hne, hdigits, rfl, hlt⟩
    exact ⟨sign, digits, Blank.trim_of_pads hpads (bare_of_digits hsign hne hdigits), hsign,
      Decimal.digits?_eq_some_iff.2 ⟨hne, hdigits, hlt, rfl⟩⟩

/-- A line has three fields exactly if two commas cut it so. Blanks around the line belong to no
field. -/
theorem fields_eq_iff {cs version checksum size : List Char} :
    Cut.fields ',' (Blank.trim cs) = [version, checksum, size] ↔
      Splits cs version checksum size := by
  have hjoined : [','].intercalate [version, checksum, size]
      = version ++ ',' :: (checksum ++ ',' :: size) := by
    rw [Cut.intercalate_cons_cons, Cut.intercalate_cons_cons, List.intercalate_singleton]
  constructor
  · intro h
    have hparts : ∀ part ∈ [version, checksum, size], ',' ∉ part := fun part hpart =>
      Cut.notMem_of_mem_fields (h ▸ hpart)
    simp only [List.forall_mem_cons] at hparts
    obtain ⟨hversion, hchecksum, hsize, -⟩ := hparts
    refine ⟨⟨_, Blank.pads_trim cs, Blank.bare_trim cs, ?_⟩, hversion, hchecksum, hsize⟩
    rw [← hjoined, ← h, Cut.intercalate_fields]
  · rintro ⟨⟨line, hpads, hbare, rfl⟩, hversion, hchecksum, hsize⟩
    rw [Blank.trim_of_pads hpads hbare, ← hjoined]
    refine Cut.fields_intercalate (List.cons_ne_nil _ _) ?_
    simp only [List.forall_mem_cons]
    exact ⟨hversion, hchecksum, hsize, nofun⟩

/-- A text is read as a manifest exactly if it spells it, field by field. -/
theorem parse_eq_ok_iff {text : String} {m : Manifest} :
    parse text = .ok m ↔ m.SpelledBy text.toList := by
  constructor
  · intro h
    obtain ⟨version, checksum, size, hfields, hversion, hchecksum, hsize⟩ := fields_of_parse h
    exact ⟨version, checksum, size, fields_eq_iff.1 hfields, readField_eq_some_iff.1 hversion,
      readField_eq_some_iff.1 hchecksum, readField_eq_some_iff.1 hsize⟩
  · rintro ⟨version, checksum, size, hsplits, hversion, hchecksum, hsize⟩
    have hread : read? text.toList = some m := by
      rw [read?, fields_eq_iff.2 hsplits]
      dsimp only
      rw [readField_eq_some_iff.2 hversion, readField_eq_some_iff.2 hchecksum,
        readField_eq_some_iff.2 hsize]
      rfl
    rw [parse, hread]

/-! ## Numbers with blanks around them -/

theorem bare_render (n : Nat) : Bare (Decimal.render n) :=
  bare_of_digits (.inl rfl) (Decimal.render_ne_nil n)
    (List.all_eq_true.1 (Decimal.all_isDigit_render n))

/-- A number in decimal, with blanks around it, is a field, and no comma is in it. -/
theorem spellsNumber_of_pads {n : UInt32} {field : List Char}
    (h : Pads (Decimal.render n.toNat) field) : SpellsNumber field n.toNat ∧ ',' ∉ field := by
  have hdigits := List.all_eq_true.1 (Decimal.all_isDigit_render n.toNat)
  refine ⟨⟨[], _, h, .inl rfl, Decimal.render_ne_nil _, hdigits, Decimal.value_render _,
    n.toNat_lt⟩, ?_⟩
  obtain ⟨front, back, rfl, hfront, hback⟩ := h
  simp only [List.mem_append, not_or]
  refine ⟨⟨fun hcomma => ?_, fun hcomma => ?_⟩, fun hcomma => ?_⟩
  · exact absurd (hfront _ hcomma) (by decide)
  · exact absurd (hdigits _ hcomma) (by decide)
  · exact absurd (hback _ hcomma) (by decide)

/-- Three numbers in decimal and two commas, with blanks anywhere but in a number. -/
theorem spelledBy_of_pads {v c s : UInt32} {cs version checksum size : List Char}
    (hversion : Pads (Decimal.render v.toNat) version)
    (hchecksum : Pads (Decimal.render c.toNat) checksum)
    (hsize : Pads (Decimal.render s.toNat) size)
    (hline : Pads (version ++ ',' :: (checksum ++ ',' :: size)) cs) :
    SpelledBy ⟨v.toNat, c.toNat, s.toNat⟩ cs := by
  obtain ⟨front, behind, rfl, hfront, hbehind⟩ := hversion
  obtain ⟨before, back, rfl, hbefore, hback⟩ := hsize
  -- the blanks in front of the first field and behind the last one are at the ends of the line
  obtain ⟨hfirst, hfirst'⟩ := spellsNumber_of_pads ⟨[], behind, rfl, nofun, hbehind⟩
  obtain ⟨hsecond, hsecond'⟩ := spellsNumber_of_pads hchecksum
  obtain ⟨hthird, hthird'⟩ :=
    spellsNumber_of_pads ⟨before, [], (List.append_nil _).symm, hbefore, nofun⟩
  refine ⟨_, checksum, _, ⟨⟨_, .trans ?_ hline, ?_, rfl⟩, hfirst', hsecond', hthird'⟩, hfirst,
    hsecond, hthird⟩
  · exact ⟨front, back, by simp, hfront, hback⟩
  · have hbare := (bare_render v.toNat).around (bare_render s.toNat) (Decimal.render_ne_nil _)
      (Decimal.render_ne_nil _) (behind ++ ',' :: (checksum ++ ',' :: before))
    simpa using hbare

/-- A text is a manifest exactly if it spells one, and is malformed exactly if it spells none. The
numbers of a manifest in decimal, with blanks around each of them and around the line, are one of
its texts. -/
theorem parse_accepts_fields (text : String) :
    (∀ m : Manifest, parse text = .ok m ↔ m.SpelledBy text.toList) ∧
      (parse text = .error .malformedManifest ↔ ∀ m : Manifest, ¬ m.SpelledBy text.toList) ∧
      ∀ (v c s : UInt32) (version checksum size : List Char),
        Pads (Decimal.render v.toNat) version → Pads (Decimal.render c.toNat) checksum →
        Pads (Decimal.render s.toNat) size →
        Pads (version ++ ',' :: (checksum ++ ',' :: size)) text.toList →
        parse text = .ok ⟨v.toNat, c.toNat, s.toNat⟩ := by
  refine ⟨fun m => parse_eq_ok_iff, ?_, ?_⟩
  · constructor
    · intro herror m hspelled
      cases herror.symm.trans (parse_eq_ok_iff.2 hspelled)
    · intro hnone
      cases hparse : parse text with
      | ok m => exact absurd (parse_eq_ok_iff.1 hparse) (hnone m)
      | error e => rw [eq_malformedManifest_of_parse hparse]
  · intro v c s version checksum size hversion hchecksum hsize hline
    exact parse_eq_ok_iff.2 (spelledBy_of_pads hversion hchecksum hsize hline)

end Manifest

end DeviceHttp
