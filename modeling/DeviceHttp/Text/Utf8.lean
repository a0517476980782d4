/-!
# Text as bytes

Everything this library sends, receives or stores is a list of bytes; what it reads as text is the
UTF-8 form of some characters. `Utf8.decode?` gives those characters back, and
`Utf8.decode?_eq_some_iff` says that it accepts the UTF-8 forms and nothing else. Lengths and
capacities count bytes throughout; `Utf8.length_ofString` ties them to the length of a text.
-/

namespace DeviceHttp

/-- A byte string. -/
abbrev Bytes := List UInt8

namespace Utf8

/-- The UTF-8 form of a list of characters. -/
def encode (cs : List Char) : Bytes :=
  cs.flatMap String.utf8EncodeChar

/-- The characters that a byte string is the UTF-8 form of, if there are any. -/
def decode? (bs : Bytes) : Option (List Char) :=
  bs.toByteArray.utf8Decode?.map Array.toList

/-- The bytes of a text. -/
def ofString (s : String) : Bytes :=
  encode s.toList

/-- Whether a text fits in so many bytes. -/
def fits (capacity : Nat) (s : String) : Bool :=
  s.utf8ByteSize ≤ capacity

/-- The text that a byte string spells, if it spells one. -/
def toString? (bs : Bytes) : Option String :=
  (decode? bs).map String.ofList

@[simp] theorem encode_nil : encode [] = [] := rfl

@[simp] theorem encode_cons (c : Char) (cs : List Char) :
    encode (c :: cs) = String.utf8EncodeChar c ++ encode cs := rfl

@[simp] theorem encode_append (cs ds : List Char) : encode (cs ++ ds) = encode cs ++ encode ds := by
  simp [encode]

theorem toByteArray_encode (cs : List Char) : (encode cs).toByteArray = cs.utf8Encode := rfl

@[simp] theorem decode?_encode (cs : List Char) : decode? (encode cs) = some cs := by
  simp [decode?, toByteArray_encode]

theorem encode_injective {cs ds : List Char} (h : encode cs = encode ds) : cs = ds := by
  have := congrArg decode? h
  simpa using this

/-- A character of ASCII is one byte, which is its code. -/
theorem utf8EncodeChar_of_lt {c : Char} (h : c.toNat < 128) :
    String.utf8EncodeChar c = [UInt8.ofNat c.toNat] := by
  have hle : c.val.toNat ≤ 127 := Nat.le_of_lt_succ h
  rw [String.utf8EncodeChar, if_pos hle]
  rfl

theorem encode_of_ascii {cs : List Char} (h : ∀ c ∈ cs, c.toNat < 128) :
    encode cs = cs.map fun c => UInt8.ofNat c.toNat := by
  rw [encode, List.flatMap_def, List.map_congr_left fun c hc => utf8EncodeChar_of_lt (h c hc),
    ← List.flatMap_def, List.map_eq_flatMap]

/-- The bytes of any other character are no ASCII. -/
theorem le_toNat_of_mem_utf8EncodeChar {c : Char} {b : UInt8} (hc : 128 ≤ c.toNat)
    (h : b ∈ String.utf8EncodeChar c) : 128 ≤ b.toNat := by
  have hlarge {n : Nat} (hlow : 128 ≤ n) (hhigh : n < 256) : 128 ≤ (UInt8.ofNat n).toNat := by
    rw [UInt8.toNat_ofNat', Nat.mod_eq_of_lt hhigh]
    exact hlow
  have hlong : ¬ c.val.toNat ≤ 127 := Nat.not_le.2 hc
  rw [String.utf8EncodeChar, if_neg hlong] at h
  split at h
  · simp only [List.mem_cons, List.not_mem_nil, or_false] at h
    rcases h with rfl | rfl <;> exact hlarge (by omega) (by omega)
  · split at h
    · simp only [List.mem_cons, List.not_mem_nil, or_false] at h
      rcases h with rfl | rfl | rfl <;> exact hlarge (by omega) (by omega)
    · simp only [List.mem_cons, List.not_mem_nil, or_false] at h
      rcases h with rfl | rfl | rfl | rfl <;> exact hlarge (by omega) (by omega)

/-- A byte of ASCII in the form of a text is a character of the text. -/
theorem exists_of_mem_encode {cs : List Char} {b : UInt8} (h : b ∈ encode cs) (hb : b.toNat < 128) :
    ∃ c ∈ cs, c.toNat = b.toNat := by
  obtain ⟨c, hc, hmem⟩ := List.mem_flatMap.1 h
  refine ⟨c, hc, ?_⟩
  by_cases hlt : c.toNat < 128
  · rw [utf8EncodeChar_of_lt hlt] at hmem
    rw [List.mem_singleton.1 hmem, UInt8.toNat_ofNat', Nat.mod_eq_of_lt (by omega)]
  · have hlarge := le_toNat_of_mem_utf8EncodeChar (Nat.le_of_not_lt hlt) hmem
    omega

/-- Reading accepts exactly the UTF-8 forms. -/
theorem decode?_eq_some_iff {bs : Bytes} {cs : List Char} :
    decode? bs = some cs ↔ bs = encode cs := by
  constructor
  · intro h
    obtain ⟨chars, hchars, rfl⟩ := Option.map_eq_some_iff.1 h
    have hsome : bs.toByteArray.utf8Decode?.isSome := by simp [hchars]
    have henc := ByteArray.utf8Encode_get_utf8Decode? (b := bs.toByteArray) (h := hsome)
    simp only [hchars, Option.get_some] at henc
    have := congrArg (fun b : ByteArray => b.data.toList) henc
    simpa [← toByteArray_encode] using this.symm
  · rintro rfl
    exact decode?_encode cs

theorem decode?_eq_none_iff {bs : Bytes} : decode? bs = none ↔ ∀ cs, bs ≠ encode cs := by
  rw [Option.eq_none_iff_forall_ne_some]
  exact forall_congr' fun cs => not_congr decode?_eq_some_iff

@[simp] theorem toString?_ofString (s : String) : toString? (ofString s) = some s := by
  simp [toString?, ofString]

theorem toString?_eq_some_iff {bs : Bytes} {s : String} :
    toString? bs = some s ↔ bs = ofString s := by
  constructor
  · intro h
    obtain ⟨cs, hcs, rfl⟩ := Option.map_eq_some_iff.1 h
    simpa [ofString] using decode?_eq_some_iff.1 hcs
  · rintro rfl
    exact toString?_ofString s

theorem ofString_injective {s t : String} (h : ofString s = ofString t) : s = t :=
  String.toList_injective (encode_injective h)

@[simp] theorem ofString_append (s t : String) : ofString (s ++ t) = ofString s ++ ofString t := by
  simp [ofString]

@[simp] theorem ofString_ofList (cs : List Char) : ofString (String.ofList cs) = encode cs := by
  rw [ofString, String.toList_ofList]

/-- The length of a text in bytes. -/
theorem length_ofString (s : String) : (ofString s).length = s.utf8ByteSize := by
  have h : (ofString s).toByteArray = s.toByteArray := by
    rw [ofString, toByteArray_encode, String.utf8Encode_toList]
  have := congrArg ByteArray.size h
  simpa using this

theorem fits_iff {capacity : Nat} {s : String} :
    fits capacity s = true ↔ (ofString s).length ≤ capacity := by
  rw [fits, decide_eq_true_eq, length_ofString]

end Utf8

end DeviceHttp
