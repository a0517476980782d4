import DeviceHttp.Transfer.Credentials

/-!
# Tokens and what they stand for

Base64 is read here in groups of four characters, each of them a number in the base of 64, whose
bytes come out; the last group may be padded. The reader takes what the writer makes of some bytes
and nothing else (`Base64.decode?_eq_some_iff`). A token is put together in places of fixed sizes,
where every copy may find that there is no room (`Credentials.assemble`); the limits on its parts
are such that none does (`Credentials.token_decodes`).
-/

namespace DeviceHttp

namespace Base64

/-! ## Reading -/

/-- The characters in the order of their values. -/
def alphabet : List Char :=
  "ABCDEFGHIJKLMNOPQRSTUVWXYZabcdefghijklmnopqrstuvwxyz0123456789+/".toList

/-- The six bits that a character stands for. -/
def sextet? (c : Char) : Option Nat :=
  alphabet.findIdx? fun d => decide (d = c)

/-- The number that a group of characters spells, most significant character first. -/
def number? (cs : List Char) : Option Nat :=
  cs.foldlM (fun n c => (sextet? c).map (64 * n + ·)) 0

/-- The bytes of a group that is padded. The bits that belong to no byte are zero. -/
def padded? (a b c : Char) : Option Bytes :=
  if c = '=' then
    match number? [a, b] with
    | some n => if n % 16 = 0 then some [UInt8.ofNat (n / 16)] else none
    | none => none
  else
    match number? [a, b, c] with
    | some n =>
      if n % 4 = 0 then some [UInt8.ofNat (n / 1024), UInt8.ofNat (n / 4 % 256)] else none
    | none => none

/-- The bytes that a padded base64 text stands for, if it is one. -/
def decode? : List Char → Option Bytes
  | [] => some []
  | a :: b :: c :: d :: rest =>
    if d = '=' ∧ rest = [] then padded? a b c
    else
      match number? [a, b, c, d], decode? rest with
      | some n, some later =>
        some (UInt8.ofNat (n / 65536) :: UInt8.ofNat (n / 256 % 256) :: UInt8.ofNat (n % 256)
          :: later)
      | _, _ => none
  | _ => none

theorem sextet?_symbol {v : Nat} (h : v < 64) : sextet? (symbol v) = some v := by
  have : ∀ v : Fin 64, sextet? (symbol v) = some v.val := by decide +kernel
  exact this ⟨v, h⟩

/-- A character that stands for something is the one that is written for it. -/
theorem eq_symbol_of_sextet? {c : Char} {v : Nat} (h : sextet? c = some v) :
    v < 64 ∧ c = symbol v := by
  obtain ⟨hlt, hc, -⟩ := List.findIdx?_eq_some_iff_getElem.1 h
  have hsize : alphabet.length = 64 := by decide +kernel
  have htable : ∀ v : Fin 64, alphabet[v.val]? = some (symbol v) := by decide +kernel
  have hv : v < 64 := hsize ▸ hlt
  have hsymbol := htable ⟨v, hv⟩
  rw [List.getElem?_eq_getElem hlt, of_decide_eq_true hc] at hsymbol
  exact ⟨hv, Option.some.inj hsymbol⟩

/-- The padding stands for nothing. -/
theorem symbol_ne_padding {v : Nat} (h : v < 64) : symbol v ≠ '=' := by
  have : ∀ v : Fin 64, symbol v ≠ '=' := by decide +kernel
  exact this ⟨v, h⟩

/-- The number of a group of characters is that of their values. -/
theorem number?_map_symbol (vs : List Nat) (h : ∀ v ∈ vs, v < 64) :
    number? (vs.map symbol) = some (vs.foldl (64 * · + ·) 0) := by
  have hfrom (n : Nat) : (vs.map symbol).foldlM (fun n c => (sextet? c).map (64 * n + ·)) n
      = some (vs.foldl (64 * · + ·) n) := by
    induction vs generalizing n with
    | nil => rfl
    | cons v vs ih =>
      obtain ⟨hv, hvs⟩ := List.forall_mem_cons.1 h
      rw [List.map_cons, List.foldlM_cons, sextet?_symbol hv]
      exact ih hvs (64 * n + v)
  exact hfrom 0

/-- Characters that spell a number are those of some values. -/
theorem exists_values {cs : List Char} {n : Nat} (h : number? cs = some n) :
    ∃ vs : List Nat, (∀ v ∈ vs, v < 64) ∧ cs = vs.map symbol ∧ n = vs.foldl (64 * · + ·) 0 := by
  unfold number? at h
  generalize 0 = m at *
  induction cs generalizing m with
  | nil => exact ⟨[], by simp, rfl, (Option.some.inj h).symm⟩
  | cons c cs ih =>
    rw [List.foldlM_cons] at h
    obtain ⟨k, hk, hrest⟩ := Option.bind_eq_some_iff.1 h
    obtain ⟨v, hv, rfl⟩ := Option.map_eq_some_iff.1 hk
    obtain ⟨hlt, rfl⟩ := eq_symbol_of_sextet? hv
    obtain ⟨vs, hvs, rfl, hn⟩ := ih (64 * m + v) hrest
    exact ⟨v :: vs, List.forall_mem_cons.2 ⟨hlt, hvs⟩, rfl, hn⟩

/-- A byte is what is left of a number that it was put in. -/
theorem ofNat_eq {n : Nat} {b : UInt8} (h : n = b.toNat) : UInt8.ofNat n = b := by
  rw [h, UInt8.ofNat_toNat]

/-- What was written is read again. The induction takes three bytes at a time, and one or two are
left for the padded group. -/
theorem decode?_encode (bs : Bytes) : decode? (encode bs) = some bs := by
  fun_induction encode bs with
  | case1 => rfl
  | case2 a =>
    have ha := a.toNat_lt
    have hn := number?_map_symbol [a.toNat / 4, a.toNat % 4 * 16] (by simp; omega)
    simp only [List.map, List.foldl] at hn
    rw [decode?, if_pos ⟨rfl, rfl⟩, padded?, if_pos rfl, hn]
    dsimp only
    rw [if_pos (by omega), ofNat_eq (b := a) (by omega)]
  | case3 a b =>
    have ha := a.toNat_lt
    have hb := b.toNat_lt
    have hn := number?_map_symbol [a.toNat / 4, a.toNat % 4 * 16 + b.toNat / 16, b.toNat % 16 * 4]
      (by simp; omega)
    simp only [List.map, List.foldl] at hn
    rw [decode?, if_pos ⟨rfl, rfl⟩, padded?, if_neg (symbol_ne_padding (by omega)), hn]
    dsimp only
    rw [if_pos (by omega), ofNat_eq (b := a) (by omega), ofNat_eq (b := b) (by omega)]
  | case4 a b c rest ih =>
    have ha := a.toNat_lt
    have hb := b.toNat_lt
    have hc := c.toNat_lt
    have hn := number?_map_symbol [a.toNat / 4, a.toNat % 4 * 16 + b.toNat / 16,
      b.toNat % 16 * 4 + c.toNat / 64, c.toNat % 64] (by simp; omega)
    simp only [List.map, List.foldl] at hn
    rw [decode?, if_neg fun h => symbol_ne_padding (by omega) h.1, hn, ih]
    dsimp only
    rw [ofNat_eq (b := a) (by omega), ofNat_eq (b := b) (by omega), ofNat_eq (b := c) (by omega)]

/-- A padded group is what is written of one byte or of two. The bits that the padding leaves over
must be zero, or the group is not read. -/
theorem eq_encode_of_padded? {a b c : Char} {bs : Bytes} (h : padded? a b c = some bs) :
    [a, b, c, '='] = encode bs := by
  unfold padded? at h
  split at h
  · next hc =>
    split at h
    · next n hn =>
      split at h
      · next hzero =>
        obtain rfl := Option.some.inj h
        obtain ⟨vs, hvs, hcs, hvalue⟩ := exists_values hn
        rcases vs with _ | ⟨x, _ | ⟨y, _ | ⟨z, vs⟩⟩⟩ <;> simp at hcs
        obtain ⟨rfl, rfl⟩ := hcs
        simp only [List.forall_mem_cons, List.foldl] at hvs hvalue
        have hx : n / 16 % 2 ^ 8 / 4 = x := by omega
        have hy : n / 16 % 2 ^ 8 % 4 * 16 = y := by omega
        rw [hc, encode, UInt8.toNat_ofNat', hx, hy]
      · cases h
    · cases h
  · split at h
    · next n hn =>
      split at h
      · next hzero =>
        obtain rfl := Option.some.inj h
        obtain ⟨vs, hvs, hcs, hvalue⟩ := exists_values hn
        rcases vs with _ | ⟨x, _ | ⟨y, _ | ⟨z, _ | ⟨w, vs⟩⟩⟩⟩ <;> simp at hcs
        obtain ⟨rfl, rfl, rfl⟩ := hcs
        simp only [List.forall_mem_cons, List.foldl] at hvs hvalue
        have hx : n / 1024 % 2 ^ 8 / 4 = x := by omega
        have hy : n / 1024 % 2 ^ 8 % 4 * 16 + n / 4 % 256 % 2 ^ 8 / 16 = y := by omega
        have hz : n / 4 % 256 % 2 ^ 8 % 16 * 4 = z := by omega
        rw [encode, UInt8.toNat_ofNat', UInt8.toNat_ofNat', hx, hy, hz]
      · cases h
    · cases h

/-- The reader takes what is written of some bytes, and nothing else; so a token has one reading. -/
theorem decode?_eq_some_iff {cs : List Char} {bs : Bytes} :
    decode? cs = some bs ↔ cs = encode bs := by
  refine ⟨fun h => ?_, fun h => h ▸ decode?_encode bs⟩
  fun_induction decode? cs generalizing bs with
  | case1 =>
    obtain rfl := Option.some.inj h
    rfl
  | case2 a b c d rest hlast =>
    obtain ⟨rfl, rfl⟩ := hlast
    exact eq_encode_of_padded? h
  | case3 a b c d rest hmore n later hlater hn ih =>
    obtain rfl := Option.some.inj h
    obtain ⟨vs, hvs, hcs, hvalue⟩ := exists_values hn
    rcases vs with _ | ⟨x, _ | ⟨y, _ | ⟨z, _ | ⟨w, _ | ⟨v, vs⟩⟩⟩⟩⟩ <;> simp at hcs
    obtain ⟨rfl, rfl, rfl, rfl⟩ := hcs
    simp only [List.forall_mem_cons, List.foldl] at hvs hvalue
    have hx : n / 65536 % 2 ^ 8 / 4 = x := by omega
    have hy : n / 65536 % 2 ^ 8 % 4 * 16 + n / 256 % 256 % 2 ^ 8 / 16 = y := by omega
    have hz : n / 256 % 256 % 2 ^ 8 % 16 * 4 + n % 256 % 2 ^ 8 / 64 = z := by omega
    have hw : n % 256 % 2 ^ 8 % 64 = w := by omega
    rw [encode, UInt8.toNat_ofNat', UInt8.toNat_ofNat', UInt8.toNat_ofNat', hx, hy, hz, hw,
      ih hlater]
  | case4 => cases h
  | case5 => cases h

/-! ## The size of what is written -/

/-- Every character that is written is one byte. -/
theorem length_utf8_encode (bs : Bytes) :
    (Utf8.encode (encode bs)).length = encodedLength bs.length := by
  have hone {v : Nat} (h : v < 64) : (String.utf8EncodeChar (symbol v)).length = 1 := by
    have : ∀ v : Fin 64, (String.utf8EncodeChar (symbol v)).length = 1 := by decide +kernel
    exact this ⟨v, h⟩
  have hpadding : (String.utf8EncodeChar '=').length = 1 := by decide +kernel
  rw [← length_encode]
  fun_induction encode bs with
  | case1 => rfl
  | case2 a =>
    have ha := a.toNat_lt
    simp only [Utf8.encode_cons, Utf8.encode_nil, List.length_append, List.length_cons,
      List.length_nil, hpadding]
    rw [hone (by omega), hone (by omega)]
  | case3 a b =>
    have ha := a.toNat_lt
    have hb := b.toNat_lt
    simp only [Utf8.encode_cons, Utf8.encode_nil, List.length_append, List.length_cons,
      List.length_nil, hpadding]
    rw [hone (by omega), hone (by omega), hone (by omega)]
  | case4 a b c rest ih =>
    have ha := a.toNat_lt
    have hb := b.toNat_lt
    have hc := c.toNat_lt
    simp only [Utf8.encode_cons, List.length_append, List.length_cons, ih]
    rw [hone (by omega), hone (by omega), hone (by omega), hone (by omega)]
    omega

end Base64

namespace Credentials

/-! ## In places of fixed sizes -/

/-- A text with another one behind it, in a place for so many bytes. -/
def appendWithin (capacity : Nat) (text more : String) : Except TransferError String :=
  if text.utf8ByteSize + more.utf8ByteSize ≤ capacity then .ok (text ++ more) else .error .overflow

/-- The room for a user, a colon and a password, in bytes. -/
def pairCapacity : Nat := userCapacity + 1 + passwordCapacity

/-- The token for a user and a password, put together copy by copy. -/
def assemble (user password : String) : Except TransferError String := do
  if userCapacity < user.utf8ByteSize ∨ passwordCapacity < password.utf8ByteSize then
    throw .overflow
  let pair ← appendWithin pairCapacity "" user
  let pair ← appendWithin pairCapacity pair ":"
  let pair ← appendWithin pairCapacity pair password
  let encoded ← encodeWithin tokenCapacity (Utf8.ofString pair)
  appendWithin tokenCapacity "" encoded

theorem appendWithin_of_le {capacity : Nat} {text more : String}
    (h : text.utf8ByteSize + more.utf8ByteSize ≤ capacity) :
    appendWithin capacity text more = .ok (text ++ more) :=
  if_pos h

/-- The text stands for these bytes, and no other text does. -/
def StandsFor (text : String) (bs : Bytes) : Prop :=
  ∀ cs, Base64.decode? cs = some bs ↔ cs = text.toList

/-- Bytes whose base64 form has room become it, and it stands for them. -/
theorem encodeWithin_of_le {room : Nat} {bs : Bytes}
    (h : Base64.encodedLength bs.length ≤ room) :
    ∃ text : String, encodeWithin room bs = .ok text ∧
      text.utf8ByteSize = Base64.encodedLength bs.length ∧
      text.length = Base64.encodedLength bs.length ∧ StandsFor text bs := by
  refine ⟨_, if_pos h, ?_, ?_, fun cs => ?_⟩
  · rw [← Utf8.length_ofString, Utf8.ofString_ofList, Base64.length_utf8_encode]
  · rw [String.length_ofList, Base64.length_encode]
  · rw [String.toList_ofList, Base64.decode?_eq_some_iff]

theorem encodeWithin_of_lt {room : Nat} {bs : Bytes}
    (h : room < Base64.encodedLength bs.length) : encodeWithin room bs = .error .overflow :=
  if_neg (Nat.not_le_of_gt h)

/-- Parts within their limits have a token that fits. -/
theorem encodedLength_pair_le {user password : String} (huser : user.utf8ByteSize ≤ userCapacity)
    (hpassword : password.utf8ByteSize ≤ passwordCapacity) :
    Base64.encodedLength (Utf8.ofString (user ++ ":" ++ password)).length ≤ tokenCapacity := by
  have hcolon : (":" : String).utf8ByteSize = 1 := rfl
  rw [Utf8.length_ofString, String.utf8ByteSize_append, String.utf8ByteSize_append, hcolon]
  simp only [tokenCapacity, Base64.encodedLength, userCapacity, passwordCapacity] at *
  omega

theorem token_of_le {user password : String} (huser : user.utf8ByteSize ≤ userCapacity)
    (hpassword : password.utf8ByteSize ≤ passwordCapacity) :
    token user password
      = encodeWithin tokenCapacity (Utf8.ofString (user ++ ":" ++ password)) := by
  rw [token, Utf8.fits, Utf8.fits, decide_eq_true huser, decide_eq_true hpassword]
  rfl

/-- A part above its limit has no token. -/
theorem token_of_lt {user password : String}
    (h : userCapacity < user.utf8ByteSize ∨ passwordCapacity < password.utf8ByteSize) :
    token user password = .error .overflow := by
  refine if_neg ?_
  rw [Bool.and_eq_true, Utf8.fits, Utf8.fits, decide_eq_true_eq, decide_eq_true_eq]
  omega

/-- None of the copies finds that there is no room, because the longest credentials are no longer
than the first place and their token no longer than the last. -/
theorem assemble_eq_token (user password : String) :
    assemble user password = token user password := by
  by_cases h : userCapacity < user.utf8ByteSize ∨ passwordCapacity < password.utf8ByteSize
  · rw [token_of_lt h, assemble, if_pos h]
    rfl
  · obtain ⟨huser, hpassword⟩ := not_or.1 h
    rw [Nat.not_lt] at huser hpassword
    obtain ⟨text, htext, hsize, -⟩ := encodeWithin_of_le (encodedLength_pair_le huser hpassword)
    have hfits : text.utf8ByteSize ≤ tokenCapacity :=
      hsize ▸ encodedLength_pair_le huser hpassword
    have hroom : pairCapacity = userCapacity + 1 + passwordCapacity := rfl
    have hcolon : (":" : String).utf8ByteSize = 1 := rfl
    have hempty : ("" : String).utf8ByteSize = 0 := rfl
    have hfirst : appendWithin pairCapacity "" user = .ok user := by
      rw [appendWithin_of_le (by omega), String.empty_append]
    have hsecond : appendWithin pairCapacity user ":" = .ok (user ++ ":") :=
      appendWithin_of_le (by omega)
    have hthird : appendWithin pairCapacity (user ++ ":") password
        = .ok (user ++ ":" ++ password) :=
      appendWithin_of_le (by rw [String.utf8ByteSize_append]; omega)
    have hlast : appendWithin tokenCapacity "" text = .ok text := by
      rw [appendWithin_of_le (by omega), String.empty_append]
    rw [token_of_le huser hpassword, assemble, if_neg h]
    simp only [bind, Except.bind, hfirst, hsecond, hthird, htext, hlast]

/-- A byte string becomes its base64 form if there is room for four characters for every three
bytes begun, and overflows if there is not; the form stands for the bytes. A token overflows exactly
if a part of it is above its limit. Else it stands for the user, a colon and the password, it is no
longer than the longest token, and no copy on the way to it finds that there is no room. -/
theorem token_decodes :
    (∀ (room : Nat) (bs : Bytes),
      let size := 4 * ((bs.length + 2) / 3)
      (encodeWithin room bs = .error .overflow ↔ room < size) ∧
        (size ≤ room → ∃ text : String, encodeWithin room bs = .ok text ∧ text.length = size ∧
          StandsFor text bs)) ∧
    ∀ user password : String,
      (token user password = .error .overflow ↔
        64 < (Utf8.ofString user).length ∨ 64 < (Utf8.ofString password).length) ∧
      ((Utf8.ofString user).length ≤ 64 → (Utf8.ofString password).length ≤ 64 →
        ∃ text : String, token user password = .ok text ∧ text.utf8ByteSize ≤ 172 ∧
          StandsFor text (Utf8.ofString user ++ Utf8.ofString ":" ++ Utf8.ofString password)) ∧
      assemble user password = token user password := by
  refine ⟨fun room bs => ?_, fun user password => ?_⟩
  · intro size
    have hfits (h : size ≤ room) : ∃ text : String, encodeWithin room bs = .ok text ∧
        text.length = size ∧ StandsFor text bs := by
      obtain ⟨text, htext, -, hlength, hstands⟩ := encodeWithin_of_le h
      exact ⟨text, htext, hlength, hstands⟩
    refine ⟨⟨fun hover => Nat.lt_of_not_le fun hroom => ?_, encodeWithin_of_lt⟩, hfits⟩
    obtain ⟨text, htext, -⟩ := hfits hroom
    cases hover.symm.trans htext
  · rw [Utf8.length_ofString, Utf8.length_ofString]
    have hfits (huser : user.utf8ByteSize ≤ 64) (hpassword : password.utf8ByteSize ≤ 64) :
        ∃ text : String, token user password = .ok text ∧ text.utf8ByteSize ≤ 172 ∧
          StandsFor text
            (Utf8.ofString user ++ Utf8.ofString ":" ++ Utf8.ofString password) := by
      have hroom := encodedLength_pair_le huser hpassword
      obtain ⟨text, htext, hsize, -, hstands⟩ := encodeWithin_of_le hroom
      rw [Utf8.ofString_append, Utf8.ofString_append] at hstands
      exact ⟨text, (token_of_le huser hpassword).trans htext, hsize ▸ hroom, hstands⟩
    refine ⟨⟨fun hover => Decidable.byContradiction fun hparts => ?_, token_of_lt⟩, hfits,
      assemble_eq_token user password⟩
    obtain ⟨huser, hpassword⟩ := not_or.1 hparts
    obtain ⟨text, htext, -⟩ := hfits (Nat.not_lt.1 huser) (Nat.not_lt.1 hpassword)
    cases hover.symm.trans htext

end Credentials

end DeviceHttp
