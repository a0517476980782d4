import DeviceHttp.Json.Record
import Mathlib.Data.List.Basic

/-!
# Reading what was written

Of a text without quotes, backslashes and controls no character is escaped, and no byte of it is a
quote or a backslash. So it is read up to the quote behind it (`Json.inverts_text`). The digits of a
number are read up to something that ends a bare value. A record of two fields is read field by field
(`Json.gives_readRecord`). So the records of a device are read back (`Reading.read_write`,
`DeviceStatus.read_write`).
-/

namespace DeviceHttp.Json

variable {α β : Type}

/-- The reader takes a value off the front of a text and leaves this rest. -/
def Gives (reader : Reader α) (s : Bytes) (a : α) (rest : Bytes) : Prop :=
  ∃ r : Rest s, reader s = .ok (a, r) ∧ r.1 = rest

/-- The reader gives a value back from its written form, in front of the end of a field. -/
def Inverts (reader : Reader α) (value : Value) (a : α) : Prop :=
  ∀ rest, (∀ b ∈ rest.head?, endsBare b = true) → Gives reader (value.write ++ rest) a rest

/-- A reader that reads a part of a text gives what is given from the part. -/
theorem Gives.ofPart {reader : Reader α} {later : Reader β} {part whole rest : Bytes} {a : α}
    {f : α → β} (h : Gives reader part a rest) (hle : part.length ≤ whole.length)
    (hlater : later whole = (reader part).map fun read => (f read.1, read.2.ofPart hle)) :
    Gives later whole (f a) rest := by
  obtain ⟨r, hr, rfl⟩ := h
  rw [hr] at hlater
  exact ⟨r.ofPart hle, hlater, rfl⟩

/-! ## Texts -/

/-- No character of the text is a quote, a backslash or a control. -/
def IsPlain (s : String) : Prop :=
  ∀ c ∈ s.toList, c ≠ '"' ∧ c ≠ '\\' ∧ 32 ≤ c.toNat

instance (s : String) : Decidable (IsPlain s) :=
  List.decidableBAll (fun c => c ≠ '"' ∧ c ≠ '\\' ∧ 32 ≤ c.toNat) s.toList

/-- A text without escapes has no quote and no backslash among its bytes, since a byte of a wider
character is neither. -/
theorem notMem_of_isPlain {s : String} (h : IsPlain s) :
    34 ∉ Utf8.ofString s ∧ 92 ∉ Utf8.ofString s := by
  have hnone {b : UInt8} (hb : b.toNat < 128) (hchar : ∀ c ∈ s.toList, c.toNat ≠ b.toNat) :
      b ∉ Utf8.ofString s := by
    intro hmem
    obtain ⟨c, hc, hcode⟩ := Utf8.exists_of_mem_encode hmem hb
    exact hchar c hc hcode
  constructor
  · exact hnone (by decide) fun c hc hcode => (h c hc).1 (Char.toNat_inj.1 hcode)
  · exact hnone (by decide) fun c hc hcode => (h c hc).2.1 (Char.toNat_inj.1 hcode)

/-- A character that is plain stands for itself. -/
theorem escape_of_plain {c : Char} (h : c ≠ '"' ∧ c ≠ '\\' ∧ 32 ≤ c.toNat) :
    escape c = Utf8.encode [c] := by
  obtain ⟨hquote, hbackslash, hcontrol⟩ := h
  have hne {d : Char} (hd : d.toNat < 32) : c ≠ d := by
    intro heq
    rw [heq] at hcontrol
    omega
  rw [escape, if_neg hquote, if_neg hbackslash, if_neg (hne (by decide)), if_neg (hne (by decide)),
    if_neg (hne (by decide)), if_neg (hne (by decide)), if_neg (hne (by decide)),
    if_neg (Nat.not_lt.2 hcontrol)]

theorem writeText_of_plain {s : String} (h : IsPlain s) :
    writeText s = 34 :: Utf8.ofString s ++ [34] := by
  have hescape : s.toList.flatMap escape = Utf8.ofString s := by
    rw [List.flatMap_def, Utf8.ofString, Utf8.encode, List.flatMap_def]
    refine congrArg List.flatten (List.map_congr_left fun c hc => ?_)
    exact (escape_of_plain (h c hc)).trans (List.append_nil _)
  rw [writeText, hescape]

/-- Up to the closing quote, a text without escapes is read as it is. -/
theorem untilQuote_append {text : Bytes} (hquote : 34 ∉ text) (hbackslash : 92 ∉ text)
    (rest : Bytes) : untilQuote (text ++ 34 :: rest) = some (text, rest) := by
  induction text with
  | nil => cases rest <;> rfl
  | cons b text ih =>
    obtain ⟨hb, hquote⟩ := List.ne_and_not_mem_of_not_mem_cons hquote
    obtain ⟨hb', hbackslash⟩ := List.ne_and_not_mem_of_not_mem_cons hbackslash
    have hlater := ih hquote hbackslash
    obtain ⟨c, s, hcons⟩ := List.exists_cons_of_ne_nil (l := text ++ 34 :: rest) (by simp)
    rw [hcons] at hlater
    rw [List.cons_append, hcons, untilQuote, if_neg hb.symm, if_neg hb'.symm, hlater]
    rfl

/-- A text without escapes, its closing quote behind it, is read as that text. -/
theorem gives_readOpenText {s : String} (h : IsPlain s) (rest : Bytes) :
    Gives readOpenText (Utf8.ofString s ++ 34 :: rest) s rest := by
  obtain ⟨hquote, hbackslash⟩ := notMem_of_isPlain h
  have hcut := untilQuote_append hquote hbackslash rest
  unfold Gives readOpenText
  split
  · next hnone => cases hcut.symm.trans hnone
  · next text behind hsome =>
    obtain ⟨rfl, rfl⟩ := Prod.mk.inj (Option.some.inj (hcut.symm.trans hsome))
    rw [Utf8.toString?_ofString]
    exact ⟨_, rfl, rfl⟩

theorem inverts_text {s : String} (h : IsPlain s) : Inverts readText (.text s) s := by
  intro rest _
  have hwritten : Value.write (.text s) ++ rest = 34 :: (Utf8.ofString s ++ 34 :: rest) := by
    rw [Value.write, writeText_of_plain h]
    simp
  rw [hwritten]
  exact (gives_readOpenText h rest).ofPart (f := id) _ rfl

/-! ## Numbers -/

theorem isDigit_eq_false_of_endsBare {b : UInt8} (h : endsBare b = true) : isDigit b = false := by
  simp only [endsBare, Bool.or_eq_true, decide_eq_true_eq] at h
  rcases h with (rfl | rfl) | rfl <;> decide

/-- A digit is one byte, which is its code. -/
theorem encode_digit {c : Char} (h : c.isDigit = true) :
    String.utf8EncodeChar c = [UInt8.ofNat c.toNat] ∧ (UInt8.ofNat c.toNat).toNat = c.toNat := by
  obtain ⟨-, hle⟩ := Decimal.range_of_isDigit h
  refine ⟨Utf8.utf8EncodeChar_of_lt (by omega), ?_⟩
  rw [UInt8.toNat_ofNat', Nat.mod_eq_of_lt (by omega)]

/-- Digits are read as bytes as they are as characters. -/
theorem digits_encode {ds : List Char} (h : ∀ c ∈ ds, c.isDigit = true) :
    (∀ b ∈ Utf8.encode ds, isDigit b = true) ∧ digitsValue (Utf8.encode ds) = Decimal.value ds := by
  have hencode : Utf8.encode ds = ds.map fun c => UInt8.ofNat c.toNat := by
    apply Utf8.encode_of_ascii
    intro c hc
    obtain ⟨-, hle⟩ := Decimal.range_of_isDigit (h c hc)
    omega
  rw [hencode]
  constructor
  · intro b hb
    obtain ⟨c, hc, rfl⟩ := List.mem_map.1 hb
    obtain ⟨-, hbyte⟩ := encode_digit (h c hc)
    simp only [isDigit, Bool.and_eq_true, decide_eq_true_eq, UInt8.le_iff_toNat_le, hbyte]
    exact Decimal.range_of_isDigit (h c hc)
  · rw [digitsValue, List.foldl_map, Decimal.value]
    apply List.foldl_ext
    intro n c hc
    obtain ⟨-, hbyte⟩ := encode_digit (h c hc)
    rw [hbyte]
    rfl

/-- The written form of a number above zero does not start with a zero. -/
theorem head?_render {n : Nat} (h : 0 < n) : (Decimal.render n).head? ≠ some '0' := by
  induction n using Nat.strongRecOn with
  | ind n ih =>
    rw [Decimal.render]
    split
    · next hlt =>
      have hdigit : ∀ m : Fin 10, 0 < m.val → Decimal.digit m ≠ '0' := by decide
      simpa using hdigit ⟨n, hlt⟩ h
    · next hge =>
      have hfront := ih (n / 10) (by omega) (by omega)
      rwa [List.head?_append_of_ne_nil _ (Decimal.render_ne_nil _)]

/-- The written form of a number above zero, as it is read: a digit that is no zero, and more. A
zero in front would end the number. -/
theorem encode_render {n : Nat} (h : 0 < n) :
    ∃ b bs, Utf8.encode (Decimal.render n) = b :: bs ∧ b ≠ 48 ∧ isDigit b = true ∧
      (∀ c ∈ bs, isDigit c = true) ∧ digitsValue (b :: bs) = n := by
  obtain ⟨c, cs, hrender⟩ := List.exists_cons_of_ne_nil (Decimal.render_ne_nil n)
  have hdigits := List.all_eq_true.1 (Decimal.all_isDigit_render n)
  have hzero := head?_render h
  obtain ⟨hbytes, hvalue⟩ := digits_encode hdigits
  rw [Decimal.value_render] at hvalue
  rw [hrender] at hdigits hbytes hvalue hzero ⊢
  obtain ⟨hc, hcs⟩ := List.forall_mem_cons.1 hdigits
  obtain ⟨hsingle, hcode⟩ := encode_digit hc
  rw [Utf8.encode_cons, hsingle, List.singleton_append] at hbytes hvalue ⊢
  refine ⟨_, _, rfl, ?_, hbytes _ List.mem_cons_self, (digits_encode hcs).1, hvalue⟩
  intro hb
  rw [hb] at hcode
  exact hzero (congrArg some (Char.toNat_inj.1 hcode.symm))

/-- The digits of a number are read as the number, as long as no digit follows and the value is
admitted. -/
theorem gives_readDigits (admitted : Nat → Bool) {n : Nat} (hn : admitted n = true) {rest : Bytes}
    (hrest : ∀ b ∈ rest.head?, endsBare b = true) :
    Gives (readDigits admitted) (Utf8.encode (Decimal.render n) ++ rest) n rest := by
  rcases Nat.eq_zero_or_pos n with rfl | hpos
  · have hzero : Utf8.encode (Decimal.render 0) = [48] := by decide +kernel
    rw [hzero]
    exact ⟨_, rfl, rfl⟩
  · obtain ⟨b, bs, hrender, hb, hdigit, hdigits, hvalue⟩ := encode_render hpos
    obtain ⟨htake, hdrop⟩ := Cut.while_append hdigits fun c hc =>
      isDigit_eq_false_of_endsBare (hrest c hc)
    rw [hrender]
    unfold Gives
    rw [List.cons_append, readDigits, if_neg hb, if_pos hdigit]
    simp only [htake, hvalue, hn, if_true]
    exact ⟨_, rfl, hdrop⟩

/-- A number starts with a digit, which is neither a blank nor a sign. -/
theorem render_start (n : Nat) (rest : Bytes) :
    ∃ b s, Utf8.encode (Decimal.render n) ++ rest = b :: s ∧ skipBlanks (b :: s) = b :: s ∧
      b ≠ 45 := by
  obtain ⟨b, bs, hbytes⟩ := List.exists_cons_of_ne_nil (l := Utf8.encode (Decimal.render n)) (by
    obtain ⟨c, cs, hrender⟩ := List.exists_cons_of_ne_nil (Decimal.render_ne_nil n)
    rw [hrender]
    simp)
  have hdigit : isDigit b = true := by
    apply (digits_encode (List.all_eq_true.1 (Decimal.all_isDigit_render n))).1
    rw [hbytes]
    exact List.mem_cons_self
  have hne {c : UInt8} (hc : isDigit c = false) : b ≠ c := by
    intro heq
    rw [heq, hc] at hdigit
    cases hdigit
  refine ⟨b, bs ++ rest, by rw [hbytes, List.cons_append], List.dropWhile_cons_of_neg ?_,
    hne (by decide)⟩
  simp only [isBlank, Bool.or_eq_true, decide_eq_true_eq, not_or]
  exact ⟨⟨⟨hne (by decide), hne (by decide)⟩, hne (by decide)⟩, hne (by decide)⟩

/-- A number that is in range is read back from its digits. -/
theorem inverts_unsigned (limit : Nat) {n : Nat} (hn : n < limit) :
    Inverts (readUnsigned limit) (.integer n) n := by
  intro rest hrest
  have hdigits := gives_readDigits (· < limit) (decide_eq_true hn) hrest
  obtain ⟨b, s, hcons, hblanks, hsign⟩ := render_start n rest
  show Gives _ (Utf8.encode (Decimal.render n) ++ rest) n rest
  rw [hcons] at hdigits ⊢
  refine hdigits.ofPart (f := id) (Nat.le_refl _) ?_
  unfold readUnsigned
  split
  · next hnil _ => cases hblanks.symm.trans hnil
  · next c r hr hle =>
    obtain ⟨rfl, rfl⟩ := List.cons.inj (hblanks.symm.trans hr)
    rw [if_neg hsign]
    rfl

/-- A number with a sign is read back, the least one as well: behind a minus sign the digits may be
worth one more than without. -/
theorem inverts_signed (limit : Nat) {n : Int} (hlow : -(limit : Int) ≤ n) (hhigh : n < limit) :
    Inverts (readSigned limit) (.integer n) n := by
  intro rest hrest
  cases n with
  | ofNat n =>
    have hdigits := gives_readDigits (· < limit) (decide_eq_true (Int.ofNat_lt.1 hhigh)) hrest
    obtain ⟨b, s, hcons, hblanks, hsign⟩ := render_start n rest
    show Gives _ (Utf8.encode (Decimal.render n) ++ rest) (Int.ofNat n) rest
    rw [hcons] at hdigits ⊢
    refine hdigits.ofPart (f := Int.ofNat) (Nat.le_refl _) ?_
    unfold readSigned
    split
    · next hnil _ => cases hblanks.symm.trans hnil
    · next c r hr hle =>
      obtain ⟨rfl, rfl⟩ := List.cons.inj (hblanks.symm.trans hr)
      rw [if_neg hsign]
      rfl
  | negSucc n =>
    have hle : n + 1 ≤ limit := by omega
    have hdigits := gives_readDigits (· ≤ limit) (decide_eq_true hle) hrest
    have hwritten : Value.write (.integer (.negSucc n)) ++ rest
        = 45 :: (Utf8.encode (Decimal.render (n + 1)) ++ rest) := rfl
    rw [hwritten]
    refine hdigits.ofPart (f := fun m : Nat => -(m : Int)) ?_ ?_
    · exact Nat.le_succ _
    · rfl

/-! ## Records -/

/-- What is read as the value of a field of this name; `a` and `b` are the values read so far. -/
def readField (nameA nameB : String) (readA : Reader α) (readB : Reader β) (name : String)
    (a : Option α) (b : Option β) : Reader (Option α × Option β) := fun s =>
  if name = nameA then (readA s).map fun (x, rest) => ((some x, b), rest)
  else if name = nameB then (readB s).map fun (y, rest) => ((a, some y), rest)
  else (skipValue s).map fun rest => ((a, b), rest)

section Record

variable {nameA nameB : String} {readA : Reader α} {readB : Reader β}

/-- A field, and what is read behind it. -/
theorem gives_readFields {isFirst : Bool} {name : String} {a a' : Option α} {b b' : Option β}
    {fields : α × β} {s key value behind rest : Bytes}
    (hnext : ∃ h, nextField isFirst s = .ok (.key ⟨key, h⟩))
    (hname : Gives readOpenText key name (58 :: value))
    (hfree : ¬ ((name = nameA ∧ a.isSome) ∨ (name = nameB ∧ b.isSome)))
    (hvalue : Gives (readField nameA nameB readA readB name a b) value (a', b') behind)
    (hlater : Gives (readFields nameA nameB readA readB false a' b') behind fields rest) :
    Gives (readFields nameA nameB readA readB isFirst a b) s fields rest := by
  obtain ⟨hkey, hnext⟩ := hnext
  obtain ⟨⟨_, hname'⟩, hname, rfl⟩ := hname
  obtain ⟨⟨_, hvalue'⟩, hvalue, rfl⟩ := hvalue
  obtain ⟨⟨_, hlater'⟩, hlater, rfl⟩ := hlater
  obtain ⟨hcolon', hcolon⟩ : ∃ h, skipColon (58 :: value) = .ok ⟨value, h⟩ := ⟨_, rfl⟩
  unfold readField at hvalue
  unfold Gives
  rw [readFields]
  simp only [hnext, hname, if_neg hfree, hcolon, hvalue, hlater]
  exact ⟨_, rfl, rfl⟩

variable {valueA valueB : Value} {a : α} {b : β}

/-- A record of two fields is read back from its written form, whichever of the names comes first in
the reader. -/
theorem gives_readRecord (nameA nameB : String) (hne : nameA ≠ nameB) (hnameA : IsPlain nameA)
    (hnameB : IsPlain nameB) (ha : Inverts readA valueA a) (hb : Inverts readB valueB b) :
    Gives (readRecord nameA readA nameB readB)
      (Value.write (.record [(nameA, valueA), (nameB, valueB)])) (a, b) [] := by
  -- the second field, from the comma on
  obtain ⟨second, hsecond⟩ : ∃ second, second
      = 44 :: 34 :: (Utf8.ofString nameB ++ 34 :: 58 :: (valueB.write ++ [125])) := ⟨_, rfl⟩
  have hwritten : Value.write (.record [(nameA, valueA), (nameB, valueB)])
      = 123 :: 34 :: (Utf8.ofString nameA ++ 34 :: 58 :: (valueA.write ++ second)) := by
    simp [hsecond, Value.write, writeFields, writeText_of_plain hnameA, writeText_of_plain hnameB]
  have hend : Gives (readFields nameA nameB readA readB false (some a) (some b)) [125] (a, b)
      [] := by
    unfold Gives
    rw [readFields]
    exact ⟨_, rfl, rfl⟩
  have hlater : Gives (readFields nameA nameB readA readB false (some a) none) second (a, b)
      [] := by
    rw [hsecond]
    refine gives_readFields ⟨_, rfl⟩ (gives_readOpenText hnameB _) ?_ ?_ hend
    · simp [hne.symm]
    · have hvalue := hb [125] (by simp [endsBare])
      refine hvalue.ofPart (f := fun y => (some a, some y)) (Nat.le_refl _) ?_
      simp only [readField, if_neg hne.symm, if_true]
      rfl
  have hfields : Gives (readFields nameA nameB readA readB true none none)
      (34 :: (Utf8.ofString nameA ++ 34 :: 58 :: (valueA.write ++ second))) (a, b) [] := by
    refine gives_readFields ⟨_, rfl⟩ (gives_readOpenText hnameA _) ?_ ?_ hlater
    · simp
    · have hvalue := ha second (by simp [hsecond, endsBare])
      refine hvalue.ofPart (f := fun x => (some x, none)) (Nat.le_refl _) ?_
      simp only [readField, if_true]
      rfl
  rw [hwritten]
  exact hfields.ofPart (f := id) (Nat.le_succ _) rfl

end Record

/-- A text that is read to its end is read as a whole. -/
theorem read_of_gives {reader : Reader α} {s : Bytes} {a : α} (h : Gives reader s a []) :
    read reader s = .ok a := by
  obtain ⟨r, hr, hnil⟩ := h
  rw [read, hr]
  dsimp only
  rw [hnil]
  rfl

end DeviceHttp.Json

namespace DeviceHttp

open Json (Gives IsPlain)

/-- A reading is read back. -/
theorem Reading.read_write {r : Reading} (hsensor : IsPlain r.sensor) (hlow : -0x80000000 ≤ r.value)
    (hhigh : r.value < 0x80000000) : Json.read Reading.read r.toJson.write = .ok r := by
  have hrecord := Json.gives_readRecord "sensor" "value" (by decide) (by decide) (by decide)
    (Json.inverts_text hsensor) (Json.inverts_signed 0x80000000 hlow hhigh)
  exact Json.read_of_gives
    (hrecord.ofPart (f := fun fields => (⟨fields.1, fields.2⟩ : Reading)) (Nat.le_refl _) rfl)

/-- A status is read back. -/
theorem DeviceStatus.read_write {d : DeviceStatus} (hstate : IsPlain d.state)
    (huptime : d.uptime < UInt32.size) : Json.read DeviceStatus.read d.toJson.write = .ok d := by
  have hrecord := Json.gives_readRecord "state" "uptime" (by decide) (by decide) (by decide)
    (Json.inverts_text hstate) (Json.inverts_unsigned UInt32.size huptime)
  exact Json.read_of_gives
    (hrecord.ofPart (f := fun fields => (⟨fields.1, fields.2⟩ : DeviceStatus)) (Nat.le_refl _) rfl)

end DeviceHttp
