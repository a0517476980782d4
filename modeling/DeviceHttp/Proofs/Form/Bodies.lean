import DeviceHttp.Body.Source
import DeviceHttp.Form.Sink
import DeviceHttp.Proofs.Form.Entries

/-!
# Forms in slices

A form sink decodes a body byte by byte, whatever the cuts, and its state between two pieces is that
of a sink that takes the entries of the body whole, one after the other (`FormSink.add`). In the
middle of a piece it holds what the piece says so far, as much of it as there is room for
(`FormSink.holding`), and an escape that is not complete. Nothing else depends on the slices but the
moment at which the last piece ends (`FormSink.acceptAll_calls`).
-/

namespace DeviceHttp

open Form (Entry Pair ampersand decodeByte decodeText entries equals percent plus readEntry space)

/-- The calls that hand a whole body over in slices, from the reset to the end of the body. -/
def Framing.calls : Framing → List Bytes → List Delivery
  | .chunked, slices => .reset :: .setChunked true :: (slices.map .write ++ [.write []])
  | .length n, slices => .reset :: .setLength n :: slices.map .write

/-- A body can come in this framing: in chunks, or with its length announced. -/
def Framing.Announces (framing : Framing) (body : Bytes) : Prop :=
  framing = .chunked ∨ framing = .length body.length

/-- The pair of texts that an entry is, if it is one. -/
def Form.Entry.pair? (e : Entry) : Option Pair :=
  match Utf8.toString? e.1, Utf8.toString? e.2 with
  | some key, some value => some (key, value)
  | _, _ => none

/-- An entry is a pair of texts exactly if it is made of their bytes. -/
theorem Form.Entry.pair?_eq_some_iff {e : Entry} {p : Pair} :
    Entry.pair? e = some p ↔ e = Entry.ofPair p := by
  unfold Entry.pair? Entry.ofPair
  constructor
  · intro h
    split at h
    · next key value hkey hvalue =>
      cases h
      exact Prod.ext (Utf8.toString?_eq_some_iff.1 hkey) (Utf8.toString?_eq_some_iff.1 hvalue)
    · cases h
  · rintro rfl
    rw [Utf8.toString?_ofString, Utf8.toString?_ofString]

theorem Form.Entry.isSome_pair?_iff {e : Entry} :
    (Entry.pair? e).isSome ↔ (Utf8.toString? e.1).isSome ∧ (Utf8.toString? e.2).isSome := by
  unfold Entry.pair?
  cases Utf8.toString? e.1 <;> cases Utf8.toString? e.2 <;> simp

namespace FormSink

variable {s : FormSink} {e : Entry} {es : List Entry}

/-! ## What does not matter to decoding -/

/-- The sink with another frame of the body: its announced length, whether it comes in chunks, and
how much of it has come. -/
def framed (length : Nat) (chunked : Bool) (received : Nat) (s : FormSink) : FormSink :=
  { s with length, chunked, received }

section Framed

variable (length : Nat) (chunked : Bool) (received : Nat)

@[simp] theorem escape_framed : (s.framed length chunked received).escape = s.escape := rfl

@[simp] theorem inValue_framed : (s.framed length chunked received).inValue = s.inValue := rfl

@[simp] theorem pairs_framed : (s.framed length chunked received).pairs = s.pairs := rfl

@[simp] theorem overflowed_framed :
    (s.framed length chunked received).overflowed = s.overflowed := rfl

theorem push_framed (b : UInt8) :
    (s.framed length chunked received).push b = (s.push b).framed length chunked received := by
  unfold push framed
  dsimp only
  split <;> split <;> rfl

theorem flushEscape_framed :
    (s.framed length chunked received).flushEscape
      = s.flushEscape.framed length chunked received := by
  cases h : s.escape <;> simp only [flushEscape, escape_framed, h, push_framed] <;> rfl

/-- Keeping a pair does not look at the frame of the body. -/
theorem keepPair_framed :
    (s.framed length chunked received).keepPair = s.keepPair.framed length chunked received := by
  unfold keepPair framed
  dsimp only
  by_cases hnone : s.key = [] ∧ s.value = []
  · rw [if_pos hnone, if_pos hnone]
  · rw [if_neg hnone, if_neg hnone]
    cases Utf8.toString? s.key with
    | none => rfl
    | some key =>
      cases Utf8.toString? s.value with
      | none => rfl
      | some value =>
        dsimp only
        split <;> rfl

theorem finish_framed :
    (s.framed length chunked received).finish = s.finish.framed length chunked received := by
  rw [finish, flushEscape_framed, keepPair_framed]
  rfl

/-- A byte that stands for itself, or ends a key or a piece, is taken without a look at the frame of
the body. -/
theorem takePlain_framed (b : UInt8) :
    (s.framed length chunked received).takePlain b
      = (s.takePlain b).framed length chunked received := by
  simp only [takePlain, finish_framed, push_framed, inValue_framed]
  split
  · rfl
  · split
    · rfl
    · split
      · rfl
      · split <;> rfl

/-- A byte is taken without a look at the frame of the body, in the middle of an escape as well. -/
theorem take_framed (b : UInt8) :
    (s.framed length chunked received).take b = (s.take b).framed length chunked received := by
  cases h : s.escape <;>
    simp only [take, escape_framed, h, flushEscape_framed, takePlain_framed]
  · split <;> rfl
  · split
    · exact push_framed (s := { s with escape := .none }) length chunked received _
    · rfl

theorem foldl_take_framed (bytes : Bytes) :
    bytes.foldl take (s.framed length chunked received)
      = (bytes.foldl take s).framed length chunked received := by
  induction bytes generalizing s with
  | nil => rfl
  | cons b bytes ih => rw [List.foldl_cons, take_framed, ih, List.foldl_cons]

end Framed

/-! ## Escapes -/

/-- The bytes of an escape that is not complete. -/
def pending : Form.Escape → Bytes
  | .none => []
  | .percent => [percent]
  | .high digit => [percent, digit]

/-- An escape goes on behind digits only. -/
def Sane (escape : Form.Escape) : Prop :=
  ∀ digit, escape = .high digit → Hex.isDigit digit = true

/-- A sink after more decoded bytes of the part that it is in. -/
def pushAll (bytes : Bytes) (s : FormSink) : FormSink :=
  bytes.foldl (fun s b => s.push b) s

@[simp] theorem pushAll_nil (s : FormSink) : s.pushAll [] = s := rfl

@[simp] theorem pushAll_cons (b : UInt8) (bytes : Bytes) (s : FormSink) :
    s.pushAll (b :: bytes) = (s.push b).pushAll bytes := rfl

theorem pushAll_append (xs ys : Bytes) (s : FormSink) :
    s.pushAll (xs ++ ys) = (s.pushAll xs).pushAll ys :=
  List.foldl_append

theorem push_withEscape (escape : Form.Escape) (b : UInt8) (s : FormSink) :
    ({ s with escape } : FormSink).push b = { s.push b with escape } := by
  unfold push
  dsimp only
  split <;> split <;> rfl

@[simp] theorem escape_push (b : UInt8) (s : FormSink) : (s.push b).escape = s.escape := by
  unfold push
  split <;> split <;> rfl

@[simp] theorem inValue_push (b : UInt8) (s : FormSink) : (s.push b).inValue = s.inValue := by
  unfold push
  split <;> split <;> rfl

/-- An escape that was not completed stands for its bytes, which come to the piece as any others. -/
theorem flushEscape_eq (s : FormSink) :
    s.flushEscape = ({ s with escape := .none } : FormSink).pushAll (pending s.escape) := by
  cases h : s.escape with
  | none =>
    rw [flushEscape, h]
    show s = { s with escape := .none }
    rw [← h]
  | percent => simp only [flushEscape, h, pending, pushAll_cons, pushAll_nil, push_withEscape]
  | high digit => simp only [flushEscape, h, pending, pushAll_cons, pushAll_nil, push_withEscape]

@[simp] theorem escape_flushEscape (s : FormSink) : s.flushEscape.escape = .none := by
  cases h : s.escape <;> simp [flushEscape, h]

@[simp] theorem inValue_flushEscape (s : FormSink) : s.flushEscape.inValue = s.inValue := by
  cases h : s.escape <;> simp [flushEscape, h]

theorem flushEscape_of_none (h : s.escape = .none) : s.flushEscape = s := by
  rw [flushEscape, h]

theorem finish_flushEscape (s : FormSink) : s.flushEscape.finish = s.finish := by
  rw [finish, flushEscape_of_none (escape_flushEscape s), finish]

theorem take_of_none (h : s.escape = .none) (b : UInt8) : s.take b = s.takePlain b := by
  rw [take, h]

/-- A byte that does not go on with an escape ends it. -/
theorem take_of_not_digit {b : UInt8} (hb : Hex.isDigit b = false) (s : FormSink) :
    s.take b = s.flushEscape.takePlain b := by
  cases h : s.escape with
  | none => rw [take_of_none h, flushEscape_of_none h]
  | percent => simp [take, h, hb]
  | high digit => simp [take, h, hb]

/-- An escape that is not gone on with stands for its own bytes: the byte behind it is no digit that
would complete it. -/
theorem decodeText_pending {escape : Form.Escape} (hsane : Sane escape) {text : Bytes}
    (htext : ∀ b ∈ text.head?, Hex.isDigit b = false) :
    decodeText (pending escape ++ text) = pending escape ++ decodeText text := by
  cases escape with
  | none => rfl
  | percent =>
    refine Form.decodeText_percent fun high low later (hrest : text = _) hhigh => ?_
    rw [hrest] at htext
    rw [htext high rfl] at hhigh
    cases hhigh
  | high digit =>
    have hdigit := hsane digit rfl
    have hpercent : digit ≠ percent := by
      rintro rfl
      exact absurd hdigit (by decide)
    have hplus : digit ≠ plus := by
      rintro rfl
      exact absurd hdigit (by decide)
    have hhalf : decodeText (percent :: digit :: text) = percent :: decodeText (digit :: text) := by
      refine Form.decodeText_percent fun high low later hrest _ => ?_
      obtain ⟨-, rfl⟩ := List.cons.inj hrest
      exact htext low rfl
    show decodeText (percent :: digit :: text) = percent :: digit :: decodeText text
    rw [hhalf, Form.decodeText_plain text hpercent, decodeByte, if_neg hplus]

theorem withEscape_of_none (h : s.escape = .none) :
    ({ s with escape := .none } : FormSink) = s := by
  rw [← h]

/-- A byte of a text, which is no separator, is decoded. -/
theorem takePlain_text {b : UInt8} (hpercent : b ≠ percent) (hampersand : b ≠ ampersand)
    (hequals : b = equals → s.inValue = true) : s.takePlain b = s.push (decodeByte b) := by
  have hkey : ¬ (b = equals ∧ s.inValue = false) := by
    rintro ⟨heq, hkey⟩
    rw [hequals heq] at hkey
    cases hkey
  rw [takePlain, if_neg hpercent, if_neg hampersand, if_neg hkey, decodeByte]
  split <;> rfl

/-- The sink takes the text as its decoded bytes, the escape that it is in included. The escape in
which the text ends is not complete, and stands for itself. -/
def Decodes (text : Bytes) (s : FormSink) : Prop :=
  (text.foldl take s).flushEscape
    = ({ s with escape := .none } : FormSink).pushAll (decodeText (pending s.escape ++ text))

theorem decodes_nil (hsane : Sane s.escape) : Decodes [] s := by
  rw [Decodes, decodeText_pending hsane (by simp), List.foldl_nil, flushEscape_eq]
  exact congrArg (pushAll · _) (List.append_nil _).symm

/-- A byte outside an escape, and the text behind it. -/
theorem flushEscape_takePlain {b : UInt8} {text : Bytes} (hnone : s.escape = .none)
    (hampersand : b ≠ ampersand) (hequals : b = equals → s.inValue = true)
    (htext : ∀ t : FormSink, Sane t.escape → t.inValue = s.inValue → Decodes text t) :
    (text.foldl take (s.takePlain b)).flushEscape = s.pushAll (decodeText (b :: text)) := by
  by_cases hpercent : b = percent
  · have htake : s.takePlain b = { s with escape := .percent } := by
      rw [takePlain, if_pos hpercent]
    have hend := htext { s with escape := .percent } nofun rfl
    rw [htake, hend, hpercent]
    show FormSink.pushAll _ { s with escape := .none } = _
    rw [withEscape_of_none hnone]
    rfl
  · have hescape : (s.push (decodeByte b)).escape = .none := (escape_push _ _).trans hnone
    have hend := htext (s.push (decodeByte b)) (by rw [hescape]; nofun) (inValue_push _ _)
    rw [takePlain_text hpercent hampersand hequals, hend, withEscape_of_none hescape, hescape,
      Form.decodeText_plain text hpercent]
    rfl

/-- Whatever escape it starts in, a sink decodes a text of a piece. The induction is over the bytes,
and the cases are those of the escape in front of each. -/
theorem decodes_text {text : Bytes} (hsane : Sane s.escape) (hampersand : ampersand ∉ text)
    (hequals : s.inValue = true ∨ equals ∉ text) : Decodes text s := by
  induction text generalizing s with
  | nil => exact decodes_nil hsane
  | cons b text ih =>
    rw [List.mem_cons, not_or] at hampersand
    have htext (t : FormSink) (ht : Sane t.escape) (hvalue : t.inValue = s.inValue) :
        Decodes text t := by
      refine ih ht hampersand.2 ?_
      rw [hvalue]
      exact hequals.imp_right fun hnot hmem => hnot (List.mem_cons_of_mem b hmem)
    have hpart : b = equals → s.inValue = true := by
      rintro rfl
      exact hequals.resolve_right fun hnot => hnot List.mem_cons_self
    by_cases hends : s.escape = .none ∨ Hex.isDigit b = false
    · -- the byte does not go on with an escape
      have htake : s.take b = s.flushEscape.takePlain b := by
        rcases hends with hnone | hdigit
        · rw [take_of_none hnone, flushEscape_of_none hnone]
        · exact take_of_not_digit hdigit s
      have hpending : decodeText (pending s.escape ++ b :: text)
          = pending s.escape ++ decodeText (b :: text) := by
        rcases hends with hnone | hdigit
        · rw [hnone]
          rfl
        · refine decodeText_pending hsane fun c hc => ?_
          cases hc
          exact hdigit
      have hvalue := inValue_flushEscape s
      have hplain := flushEscape_takePlain (escape_flushEscape s) (Ne.symm hampersand.1)
        (fun heq => hvalue.trans (hpart heq)) (fun t ht hsame => htext t ht (hsame.trans hvalue))
      rw [Decodes, List.foldl_cons, htake, hplain, hpending, pushAll_append, flushEscape_eq]
    · rw [not_or, Bool.not_eq_false] at hends
      rw [Decodes, List.foldl_cons]
      cases hescape : s.escape with
      | none => exact absurd hescape hends.1
      | percent =>
        have htake : s.take b = { s with escape := .high b } := by simp [take, hescape, hends.2]
        have hhigh : Sane (.high b) := by
          intro digit heq
          cases heq
          exact hends.2
        rw [htake, htext { s with escape := .high b } hhigh rfl]
        rfl
      | high digit =>
        have htake : s.take b
            = ({ s with escape := .none } : FormSink).push (Hex.byte digit b) := by
          simp [take, hescape, hends.2]
        have hnone : (s.take b).escape = .none := by rw [htake, escape_push]
        have hend := htext (s.take b) (by rw [hnone]; nofun) (by rw [htake, inValue_push])
        rw [hend, withEscape_of_none hnone, hnone]
        show FormSink.pushAll (decodeText text) _
          = FormSink.pushAll (decodeText (percent :: digit :: b :: text)) _
        rw [Form.decodeText_escape text (hsane digit hescape) hends.2, pushAll_cons, htake]

/-! ## Pieces -/

/-- Whether there is room for both parts of an entry. -/
def fits (e : Entry) : Bool :=
  e.1.length ≤ keyCapacity && e.2.length ≤ valueCapacity

/-- As much of an entry as there is room for. -/
def front (e : Entry) : Entry :=
  (e.1.take keyCapacity, e.2.take valueCapacity)

/-- A sink in a piece that says this entry so far, and is in its value or not. -/
def holding (e : Entry) (inValue : Bool) (s : FormSink) : FormSink :=
  { s with
    key := (front e).1
    value := (front e).2
    inValue
    overflowed := s.overflowed || !fits e }

/-- A sink between two pieces. -/
structure Settled (s : FormSink) : Prop where
  key : s.key = []
  value : s.value = []
  inValue : s.inValue = false
  escape : s.escape = .none

/-- A sink between two pieces after one more entry. It keeps the front of the entry, if that is text
and there is room for one more pair. -/
def add (s : FormSink) (e : Entry) : FormSink :=
  if e = ([], []) then s
  else
    match Entry.pair? (front e) with
    | some p =>
      if s.pairs.length < s.capacity then
        { s with pairs := s.pairs ++ [p], overflowed := s.overflowed || !fits e }
      else { s with overflowed := true }
    | none => { s with overflowed := true }

theorem fits_iff : fits e = true ↔ e.1.length ≤ keyCapacity ∧ e.2.length ≤ valueCapacity := by
  simp [fits]

theorem front_of_fits (h : fits e = true) : front e = e := by
  obtain ⟨hkey, hvalue⟩ := fits_iff.1 h
  exact Prod.ext (List.take_of_length_le hkey) (List.take_of_length_le hvalue)

theorem front_eq_nil_iff : front e = ([], []) ↔ e = ([], []) := by
  simp [front, Prod.ext_iff, keyCapacity, valueCapacity]

theorem holding_nil (h : s.Settled) : s.holding ([], []) false = s := by
  obtain ⟨capacity, pairs, key, value, inValue, escape, length, chunked, received, overflowed⟩ := s
  obtain ⟨hkey, hvalue, hpart, -⟩ := h
  cases hkey
  cases hvalue
  cases hpart
  simp [holding, front, fits]

/-- A byte in a key makes the key one longer, or marks that something was left out. -/
theorem push_holding_key (key : Bytes) (b : UInt8) :
    (s.holding (key, []) false).push b = s.holding (key ++ [b], []) false := by
  by_cases hroom : key.length < keyCapacity
  · have hkey : key.take keyCapacity = key := List.take_of_length_le (Nat.le_of_lt hroom)
    have hlonger : (key ++ [b]).take keyCapacity = key ++ [b] :=
      List.take_of_length_le (by simpa using Nat.succ_le_of_lt hroom)
    have hle : key.length + 1 ≤ keyCapacity := hroom
    simp [push, holding, front, fits, hkey, hlonger, hroom, hle, Nat.le_of_lt hroom]
  · have hle : keyCapacity ≤ key.length := Nat.le_of_not_lt hroom
    have hfull : (key ++ [b]).take keyCapacity = key.take keyCapacity :=
      List.take_append_of_le_length hle
    have hlong : ¬ key.length + 1 ≤ keyCapacity := by omega
    simp [push, holding, front, fits, hfull, hlong, Nat.min_eq_left hle]

/-- A byte in a value makes the value one longer, or marks that something was left out. -/
theorem push_holding_value (key value : Bytes) (b : UInt8) :
    (s.holding (key, value) true).push b = s.holding (key, value ++ [b]) true := by
  by_cases hroom : value.length < valueCapacity
  · have hvalue : value.take valueCapacity = value := List.take_of_length_le (Nat.le_of_lt hroom)
    have hlonger : (value ++ [b]).take valueCapacity = value ++ [b] :=
      List.take_of_length_le (by simpa using Nat.succ_le_of_lt hroom)
    have hle : value.length + 1 ≤ valueCapacity := hroom
    simp [push, holding, front, fits, hvalue, hlonger, hroom, hle, Nat.le_of_lt hroom]
  · have hle : valueCapacity ≤ value.length := Nat.le_of_not_lt hroom
    have hfull : (value ++ [b]).take valueCapacity = value.take valueCapacity :=
      List.take_append_of_le_length hle
    have hlong : ¬ value.length + 1 ≤ valueCapacity := by omega
    simp [push, holding, front, fits, hfull, hlong, Nat.min_eq_left hle]

theorem pushAll_holding_key (key bytes : Bytes) :
    (s.holding (key, []) false).pushAll bytes = s.holding (key ++ bytes, []) false := by
  induction bytes generalizing key with
  | nil => rw [pushAll_nil, List.append_nil]
  | cons b bytes ih =>
    rw [pushAll_cons, push_holding_key, ih, List.append_assoc, List.singleton_append]

theorem pushAll_holding_value (key value bytes : Bytes) :
    (s.holding (key, value) true).pushAll bytes = s.holding (key, value ++ bytes) true := by
  induction bytes generalizing value with
  | nil => rw [pushAll_nil, List.append_nil]
  | cons b bytes ih =>
    rw [pushAll_cons, push_holding_value, ih, List.append_assoc, List.singleton_append]

/-- A key and a value that are not both empty are kept if they are texts. -/
theorem keepPair_of_ne (h : ¬ (s.key = [] ∧ s.value = [])) :
    s.keepPair =
      match Entry.pair? (s.key, s.value) with
      | some p =>
        if s.pairs.length < s.capacity then { s with pairs := s.pairs ++ [p] }
        else { s with overflowed := true }
      | none => { s with overflowed := true } := by
  rw [keepPair, if_neg h, Entry.pair?]
  cases Utf8.toString? s.key with
  | none => rfl
  | some key => cases Utf8.toString? s.value <;> rfl

/-- The end of a piece adds the entry that the piece says, or nothing if it says none. -/
theorem finish_holding (h : s.Settled) (inValue : Bool) :
    (s.holding e inValue).finish = s.add e := by
  have hflush : (s.holding e inValue).flushEscape = s.holding e inValue :=
    flushEscape_of_none h.escape
  obtain ⟨capacity, pairs, key, value, part, escape, length, chunked, received, overflowed⟩ := s
  obtain ⟨hkey, hvalue, hpart, -⟩ := h
  cases hkey
  cases hvalue
  cases hpart
  rw [finish, hflush, add]
  by_cases hnone : e = ([], [])
  · subst hnone
    simp [holding, front, fits, keepPair]
  · have hfront : ¬ ((front e).1 = [] ∧ (front e).2 = []) := fun hnil =>
      hnone (front_eq_nil_iff.1 (Prod.ext hnil.1 hnil.2))
    rw [if_neg hnone, keepPair_of_ne hfront]
    dsimp only [holding]
    rw [Prod.eta]
    cases Entry.pair? (front e) with
    | none => rfl
    | some p =>
      by_cases hroom : pairs.length < capacity
      · simp only [hroom, if_true]
      · simp only [hroom, if_false]

/-- A piece is taken as its entry: up to the first sign for equality the key, and behind it the
value. -/
theorem finish_piece (h : s.Settled) {piece : Bytes} (hpiece : ampersand ∉ piece) :
    (piece.foldl take s).finish = s.add (readEntry piece) := by
  have hsane : Sane s.escape := by
    rw [h.escape]
    nofun
  -- what is in front of the first equals sign is the key
  have hkey {key : Bytes} (hampersand : ampersand ∉ key) (hequals : equals ∉ key) :
      (key.foldl take s).flushEscape = s.holding (decodeText key, []) false := by
    have hend : Decodes key s := decodes_text hsane hampersand (.inr hequals)
    rw [Decodes, withEscape_of_none h.escape, h.escape] at hend
    have hholding := pushAll_holding_key (s := s) [] (decodeText key)
    rw [holding_nil h] at hholding
    exact hend.trans hholding
  by_cases hmem : equals ∈ piece
  · obtain ⟨key, value, rfl, hequals⟩ := List.eq_append_cons_of_mem hmem
    rw [List.mem_append, List.mem_cons, not_or, not_or] at hpiece
    obtain ⟨hfirst, -, hsecond⟩ := hpiece
    have hcut : (key.foldl take s).take equals = s.holding (decodeText key, []) true := by
      rw [take_of_not_digit (by decide), hkey hfirst hequals]
      rfl
    have hescape : (s.holding (decodeText key, []) true).escape = .none := h.escape
    have hend : Decodes value (s.holding (decodeText key, []) true) :=
      decodes_text (by rw [hescape]; nofun) hsecond (.inl rfl)
    rw [Decodes, withEscape_of_none hescape, hescape] at hend
    rw [List.foldl_append, List.foldl_cons, hcut, ← finish_flushEscape, hend,
      Form.readEntry_append value hequals, pushAll_holding_value, finish_holding h]
    rfl
  · rw [← finish_flushEscape, hkey hpiece hmem, finish_holding h, Form.readEntry_of_notMem hmem]

/-! ## Bodies -/

/-- An entry leaves a sink alone, is noted only, or leaves one more pair behind where there is room
for it. -/
theorem add_cases (s : FormSink) (e : Entry) :
    s.add e = s ∨ s.add e = { s with overflowed := true } ∨
      s.pairs.length < s.capacity ∧ ∃ p, s.add e =
        { s with pairs := s.pairs ++ [p], overflowed := s.overflowed || !fits e } := by
  rw [add]
  split
  · exact .inl rfl
  · split
    · next p _ =>
      split
      · next hless => exact .inr (.inr ⟨hless, p, rfl⟩)
      · exact .inr (.inl rfl)
    · exact .inr (.inl rfl)

theorem settled_add (h : s.Settled) (e : Entry) : (s.add e).Settled := by
  rcases s.add_cases e with hadd | hadd | ⟨-, p, hadd⟩
  · rwa [hadd]
  · rw [hadd]
    exact ⟨h.key, h.value, h.inValue, h.escape⟩
  · rw [hadd]
    exact ⟨h.key, h.value, h.inValue, h.escape⟩

/-- A piece without key and value is no entry, and taking it changes nothing. -/
theorem foldl_add_filter (es : List Entry) (s : FormSink) :
    (es.filter fun e => e ≠ ([], [])).foldl add s = es.foldl add s := by
  rw [List.foldl_filter]
  congr 1
  funext t e
  by_cases hnone : e = ([], [])
  · rw [if_neg (by simpa using hnone), add, if_pos hnone]
  · rw [if_pos (by simpa using hnone)]

/-- A body is taken as its entries. -/
theorem finish_foldl_take (h : s.Settled) (body : Bytes) :
    (body.foldl take s).finish = (entries body).foldl add s := by
  rw [entries, foldl_add_filter]
  induction body using Cut.parts_induction ampersand generalizing s with
  | last piece hpiece =>
    rw [finish_piece h hpiece, Cut.fields_of_notMem hpiece]
    rfl
  | step piece rest hpiece ih =>
    have hend : (piece.foldl take s).take ampersand = (piece.foldl take s).finish := by
      rw [take_of_not_digit (by decide), ← finish_flushEscape]
      rfl
    rw [List.foldl_append, List.foldl_cons, hend, finish_piece h hpiece, ih (settled_add h _),
      Cut.fields_append hpiece, List.map_cons, List.foldl_cons]

section Slices

variable {slices : List Bytes}

/-- A slice is taken byte by byte, and the frame counts it. If the announced length is reached then,
the last piece ends. -/
theorem write_framed {slice : Bytes} (hslice : slice ≠ []) (length : Nat) (chunked : Bool)
    (received : Nat) :
    (write slice (s.framed length chunked received)).2
      = if chunked = false ∧ length ≤ received + slice.length then
          (slice.foldl take s).finish.framed length chunked (received + slice.length)
        else (slice.foldl take s).framed length chunked (received + slice.length) := by
  have htaken : (write slice (s.framed length chunked received)).2
      = if chunked = false ∧ length ≤ received + slice.length then
          ((slice.foldl take s).framed length chunked (received + slice.length)).finish
        else (slice.foldl take s).framed length chunked (received + slice.length) := by
    rw [write, if_neg hslice]
    dsimp only
    rw [foldl_take_framed]
    rfl
  rw [htaken, finish_framed]

/-- In chunks no slice ends the body, so the last piece stays open until the end is told. -/
theorem acceptAll_chunks (hslices : ∀ slice ∈ slices, slice ≠ []) (length received : Nat)
    (s : FormSink) :
    Sink.acceptAll (s.framed length true received) (slices.map .write)
      = (slices.flatten.foldl take s).framed length true (received + slices.flatten.length) := by
  induction slices generalizing received s with
  | nil => rfl
  | cons slice slices ih =>
    obtain ⟨hslice, hslices⟩ := List.forall_mem_cons.1 hslices
    have hwrite : Sink.accept (s.framed length true received) (.write slice)
        = (slice.foldl take s).framed length true (received + slice.length) := by
      refine (write_framed hslice length true received).trans (if_neg ?_)
      rintro ⟨hchunked, -⟩
      cases hchunked
    rw [List.map_cons, Sink.acceptAll_cons, hwrite, ih hslices _ _, List.flatten_cons,
      List.foldl_append, List.length_append, Nat.add_assoc]

/-- With a length the last slice ends the body, and no other one does, since those before it leave
something to come. -/
theorem acceptAll_measured (hslices : ∀ slice ∈ slices, slice ≠ []) (hsome : slices ≠ [])
    {length received : Nat} (hlength : received + slices.flatten.length = length) (s : FormSink) :
    Sink.acceptAll (s.framed length false received) (slices.map .write)
      = (slices.flatten.foldl take s).finish.framed length false length := by
  induction slices generalizing received s with
  | nil => exact absurd rfl hsome
  | cons slice slices ih =>
    obtain ⟨hslice, hslices⟩ := List.forall_mem_cons.1 hslices
    rw [List.flatten_cons, List.length_append, ← Nat.add_assoc] at hlength
    have hwrite := write_framed (s := s) hslice length false received
    rw [List.map_cons, Sink.acceptAll_cons, List.flatten_cons, List.foldl_append]
    by_cases hlast : slices = []
    · subst hlast
      obtain rfl : received + slice.length = length := hlength
      exact hwrite.trans (if_pos ⟨rfl, Nat.le_refl _⟩)
    · have hmore : 0 < slices.flatten.length := by
        obtain ⟨next, later, rfl⟩ := List.exists_cons_of_ne_nil hlast
        have hnext := List.length_pos_iff.2 (hslices next List.mem_cons_self)
        rw [List.flatten_cons, List.length_append]
        omega
      have hopen : ¬ (false = false ∧ length ≤ received + slice.length) := by
        rintro ⟨-, hle⟩
        omega
      exact (congrArg (Sink.acceptAll · _) (hwrite.trans (if_neg hopen))).trans
        (ih hslices hlast hlength _)

/-- What a sink has when a body is over are the entries of the body, however it was cut and
whichever way it was framed. -/
theorem acceptAll_calls {framing : Framing} (hslices : ∀ slice ∈ slices, slice ≠ [])
    (hframing : framing.Announces slices.flatten) (s : FormSink) :
    ∃ length chunked received, Sink.acceptAll s (framing.calls slices)
      = ((entries slices.flatten).foldl add { capacity := s.capacity }).framed
        length chunked received := by
  have hfresh : Settled { capacity := s.capacity } := ⟨rfl, rfl, rfl, rfl⟩
  rw [← finish_foldl_take hfresh]
  rcases hframing with rfl | rfl
  · have hbody := acceptAll_chunks hslices 0 0 { capacity := s.capacity }
    have hclose (t : FormSink) :
        Sink.accept (t.framed 0 true (0 + slices.flatten.length)) (.write [])
          = t.finish.framed 0 true (0 + slices.flatten.length) :=
      finish_framed 0 true _
    refine ⟨0, true, 0 + slices.flatten.length, ?_⟩
    rw [← hclose, ← hbody]
    exact Sink.acceptAll_append _ _ _
  · by_cases hnone : slices = []
    · subst hnone
      refine ⟨0, false, 0, ?_⟩
      rw [finish_foldl_take hfresh]
      rfl
    · exact ⟨_, false, _, acceptAll_measured hslices hnone (Nat.zero_add _)
        { capacity := s.capacity }⟩

end Slices

end FormSink

end DeviceHttp
