import DeviceHttp.Form.Encoding
import DeviceHttp.Text.Cut

/-!
# What a form says

A body is read here as a whole, with all of it in view: it is cut at every ampersand, each piece at
its first equals sign, and each of the two parts is decoded from its front to its end.
`Form.entries` is the list of keys and values that comes of it, and it is what a decoder that takes
one byte after the other is measured by. Encoding a list of pairs makes a body whose entries are the
pairs (`Form.entries_encode`).
-/

namespace DeviceHttp.Form

/-- The bytes of a key and of its value. -/
abbrev Entry := Bytes × Bytes

/-- The entry that a pair of texts is. -/
def Entry.ofPair (p : Pair) : Entry :=
  (Utf8.ofString p.1, Utf8.ofString p.2)

/-- What a byte outside an escape stands for: a plus sign for a space, any other byte for itself. -/
def decodeByte (b : UInt8) : UInt8 :=
  if b = plus then space else b

/-- The bytes that an encoded text stands for. A percent sign and two digits stand for one byte;
without two digits behind it a percent sign stands for itself. -/
def decodeText : Bytes → Bytes
  | [] => []
  | b :: high :: low :: rest =>
    if b = percent ∧ Hex.isDigit high = true ∧ Hex.isDigit low = true then
      Hex.byte high low :: decodeText rest
    else decodeByte b :: decodeText (high :: low :: rest)
  | b :: rest => decodeByte b :: decodeText rest

/-- Key and value of a piece, which is cut at its first equals sign. A piece without one is a key,
and the value is empty. -/
def readEntry (piece : Bytes) : Entry :=
  match Cut.around [equals] piece with
  | some (key, value) => (decodeText key, decodeText value)
  | none => (decodeText piece, [])

/-- The entries of a body, in its order. A piece that has neither a key nor a value is none. -/
def entries (body : Bytes) : List Entry :=
  ((Cut.fields ampersand body).map readEntry).filter fun e => e ≠ ([], [])

/-! ## Decoding from the front -/

theorem decodeText_escape {high low : UInt8} (rest : Bytes) (hhigh : Hex.isDigit high = true)
    (hlow : Hex.isDigit low = true) :
    decodeText (percent :: high :: low :: rest) = Hex.byte high low :: decodeText rest := by
  rw [decodeText, if_pos ⟨rfl, hhigh, hlow⟩]

theorem decodeText_plain {b : UInt8} (rest : Bytes) (h : b ≠ percent) :
    decodeText (b :: rest) = decodeByte b :: decodeText rest := by
  rcases rest with _ | ⟨high, _ | ⟨low, rest⟩⟩
  · rfl
  · rfl
  · rw [decodeText, if_neg fun hescape => h hescape.1]

/-- A percent sign is no escape without two digits. -/
theorem decodeText_percent {rest : Bytes}
    (h : ∀ high low later, rest = high :: low :: later →
      Hex.isDigit high = true → Hex.isDigit low = false) :
    decodeText (percent :: rest) = percent :: decodeText rest := by
  rcases rest with _ | ⟨high, _ | ⟨low, rest⟩⟩
  · rfl
  · rfl
  · rw [decodeText, if_neg]
    · rfl
    · rintro ⟨-, hhigh, hlow⟩
      rw [h high low rest rfl hhigh] at hlow
      cases hlow

theorem readEntry_of_notMem {piece : Bytes} (h : equals ∉ piece) :
    readEntry piece = (decodeText piece, []) := by
  have hcut : Cut.around [equals] piece = none := by
    rw [Cut.around_eq_none_iff]
    rintro x y rfl
    exact h (by simp)
  rw [readEntry, hcut]

theorem readEntry_append {key : Bytes} (value : Bytes) (h : equals ∉ key) :
    readEntry (key ++ equals :: value) = (decodeText key, decodeText value) := by
  rw [readEntry, Cut.around_of_notMem h]

/-! ## Encoding and reading back -/

/-- An encoded byte is decoded to itself, whatever stands behind it: a plus sign stands for a space,
an escape for its byte, and any other byte for itself. -/
theorem decodeText_encodeByte (b : UInt8) (rest : Bytes) :
    decodeText (encodeByte b ++ rest) = b :: decodeText rest := by
  rw [encodeByte]
  split
  · next hspace =>
    rw [hspace]
    exact decodeText_plain rest (by decide)
  · split
    · next hunreserved =>
      have hpercent : b ≠ percent := by
        rintro rfl
        exact absurd hunreserved (by decide)
      have hplus : b ≠ plus := by
        rintro rfl
        exact absurd hunreserved (by decide)
      rw [List.singleton_append, decodeText_plain rest hpercent, decodeByte, if_neg hplus]
    · have hlt : b.toNat < 256 := b.toNat_lt
      have hescape := decodeText_escape rest (Hex.isDigit_digit (n := b.toNat / 16) (by omega))
        (Hex.isDigit_digit (Nat.mod_lt b.toNat (by decide)))
      rw [Hex.byte_pair] at hescape
      exact hescape

theorem decodeText_encodeText (s : String) : decodeText (encodeText s) = Utf8.ofString s := by
  have hbytes (bytes : Bytes) : decodeText (bytes.flatMap encodeByte) = bytes := by
    induction bytes with
    | nil => rfl
    | cons b bytes ih => rw [List.flatMap_cons, decodeText_encodeByte, ih]
  exact hbytes _

/-- No separator stands in the encoded form of a byte, so the pieces of an encoded list are its
pairs. -/
theorem notMem_encodeByte {mark : UInt8} (hmark : mark = equals ∨ mark = ampersand) (b : UInt8) :
    mark ∉ encodeByte b := by
  have hplus : mark ≠ plus := by
    rcases hmark with rfl | rfl <;> decide
  have hpercent : mark ≠ percent := by
    rcases hmark with rfl | rfl <;> decide
  have hdigit : ∀ n : Fin 16, mark ≠ Hex.digit n := by
    rcases hmark with rfl | rfl <;> decide
  have hreserved : isUnreserved mark = false := by
    rcases hmark with rfl | rfl <;> decide
  rw [encodeByte]
  split
  · simpa using hplus
  · split
    · next hunreserved =>
      rw [List.mem_singleton]
      rintro rfl
      rw [hreserved] at hunreserved
      cases hunreserved
    · have hlt : b.toNat < 256 := b.toNat_lt
      have hhigh := hdigit ⟨b.toNat / 16, by omega⟩
      have hlow := hdigit ⟨b.toNat % 16, Nat.mod_lt _ (by decide)⟩
      simp [Hex.pair, hpercent, hhigh, hlow]

theorem notMem_encodeText {mark : UInt8} (hmark : mark = equals ∨ mark = ampersand) (s : String) :
    mark ∉ encodeText s := by
  rw [encodeText, List.mem_flatMap]
  rintro ⟨b, -, hb⟩
  exact notMem_encodeByte hmark b hb

theorem readEntry_encodePair (p : Pair) : readEntry (encodePair p) = Entry.ofPair p := by
  rw [encodePair, readEntry_append _ (notMem_encodeText (.inl rfl) p.1), decodeText_encodeText,
    decodeText_encodeText]
  rfl

theorem notMem_encodePair (p : Pair) : ampersand ∉ encodePair p := by
  rw [encodePair, List.mem_append, List.mem_cons, not_or, not_or]
  exact ⟨notMem_encodeText (.inr rfl) p.1, by decide, notMem_encodeText (.inr rfl) p.2⟩

/-- The pieces of an encoded list are its encoded pairs. -/
theorem fields_encode (p : Pair) (ps : List Pair) :
    Cut.fields ampersand (encode (p :: ps)) = (p :: ps).map encodePair := by
  induction ps generalizing p with
  | nil =>
    rw [encode, List.flatMap_nil, List.append_nil, Cut.fields_of_notMem (notMem_encodePair p)]
    rfl
  | cons q qs ih =>
    have hrest : encode (p :: q :: qs) = encodePair p ++ ampersand :: encode (q :: qs) := rfl
    rw [hrest, Cut.fields_append (notMem_encodePair p), ih]
    rfl

/-- The entries of an encoded list are its pairs, if each of them has a key or a value. -/
theorem entries_encode {ps : List Pair} (h : ∀ p ∈ ps, p ≠ ("", "")) :
    entries (encode ps) = ps.map Entry.ofPair := by
  have hne {p : Pair} (hp : p ≠ ("", "")) : Entry.ofPair p ≠ ([], []) := by
    intro hnil
    rw [Entry.ofPair, Prod.mk.injEq] at hnil
    exact hp (Prod.ext (Utf8.ofString_injective hnil.1) (Utf8.ofString_injective hnil.2))
  cases ps with
  | nil => rfl
  | cons p ps =>
    have hread : (Cut.fields ampersand (encode (p :: ps))).map readEntry
        = (p :: ps).map Entry.ofPair := by
      rw [fields_encode, List.map_map]
      exact List.map_congr_left fun q _ => readEntry_encodePair q
    rw [entries, hread]
    apply List.filter_eq_self.2
    intro e he
    obtain ⟨q, hq, rfl⟩ := List.mem_map.1 he
    exact decide_eq_true (hne (h q hq))

end DeviceHttp.Form
