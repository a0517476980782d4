import DeviceHttp.Body.Source
import DeviceHttp.Proofs.Machine.Buffering

/-!
# Bodies that are read piece by piece

On a device a body is a place in memory and an index into it (`Cursor`), or the pairs of a form and
a place in one of them: which pair, which part of it, how far, and what of an escape is not sent yet
(`FormCursor`). The next byte is looked for from there (`FormCursor.next`), and the length of a form
is found by going over its texts apart from that (`formLength`). An index into a text is never more
than its length, and a word holds that; a sum of lengths may be too much for a word.

`FormCursor.ahead` is what is left of the encoding, and every byte that comes is the first of it
(`FormCursor.next_advances`). A read fills the front of a buffer with what is left
(`FormCursor.read_advances`).
-/

namespace DeviceHttp

/-- The encoding of pairs behind others: every one of them follows a separator. -/
def Form.later (ps : List Form.Pair) : Bytes :=
  ps.flatMap fun p => Form.ampersand :: Form.encodePair p

namespace Machine

open Form (Pair ampersand byteLength encodeByte encodePair encodeText encodedLength equals
  isUnreserved later percent plus space textLength)

/-! ## A body in a place -/

/-- A body in the front of a place in memory, and how far it was read. -/
structure Cursor where
  cells : Bytes
  length : Nat
  position : Nat := 0
  deriving DecidableEq, Repr

namespace Cursor

def reset (c : Cursor) : Cursor :=
  { c with position := 0 }

/-- Copy what is left of the body into the front of a buffer, as far as there is room. -/
def read (buffer : Bytes) (c : Cursor) : Checked (Bytes × Nat × Cursor) := do
  let rest ← slice c.cells c.position c.length
  let n := min rest.length buffer.length
  let front ← slice rest 0 n
  let buffer ← put buffer 0 front
  pure (buffer, n, { c with position := c.position + n })

end Cursor

/-! ## A form in its pairs -/

/-- The three bytes in place of a byte, if it is not sent as it is. -/
def escaped? (b : UInt8) : Option Bytes :=
  if isUnreserved b then none else some (percent :: Hex.pair b)

/-- How many bytes are sent in place of a byte. -/
def sentLength (b : UInt8) : Nat :=
  if b = space then 1 else (escaped? b).elim 1 List.length

/-- The sum of some numbers, each of which may be one too many for a word. -/
def sum (ns : List Nat) : Checked Nat :=
  ns.foldlM add 0

/-- The length of a pair in its encoding. -/
def pairLength (p : Pair) : Checked Nat := do
  let key ← sum ((Utf8.ofString p.1).map sentLength)
  let value ← sum ((Utf8.ofString p.2).map sentLength)
  sum [key, 1, value]

/-- The length of a form, found without encoding it. -/
def formLength (ps : List Pair) : Checked Nat := do
  let lengths ← ps.mapM pairLength
  let pairs ← sum lengths
  add pairs (ps.length - 1)

/-- Where a form stands in a pair. -/
inductive Part
  | separator
  | key
  | equals
  | value
  deriving DecidableEq, Repr

/-- A form and how far it was read. -/
structure FormCursor where
  pairs : List Pair
  length : Nat
  pair : Nat := 0
  part : Part := .separator
  offset : Nat := 0
  /-- The digits of the last escape. -/
  escape : Bytes := [0, 0]
  /-- How many of them are sent. -/
  escaped : Nat := 2
  deriving DecidableEq, Repr

namespace FormCursor

/-- A form from its start. -/
def ofPairs (ps : List Pair) : Checked FormCursor := do
  let length ← formLength ps
  pure { pairs := ps, length }

def reset (c : FormCursor) : FormCursor :=
  { c with pair := 0, part := .separator, offset := 0, escaped := c.escape.length }

/-- The first byte that is sent in place of a byte; those behind it are kept for later. -/
def encode (b : UInt8) (c : FormCursor) : UInt8 × FormCursor :=
  if b = space then (plus, c)
  else
    match escaped? b with
    | some [first, high, low] => (first, { c with escape := [high, low], escaped := 0 })
    | _ => (b, c)

/-- Look for the next byte in the part in which the form stands. -/
def seek : Cycle FormCursor (Option UInt8 × FormCursor) := fun c =>
  match c.pairs[c.pair]? with
  | none => pure (.done (none, c))
  | some (key, value) =>
    match c.part with
    | .separator =>
      let d := { c with part := .key }
      if 0 < c.pair then pure (.done (some ampersand, d)) else pure (.again d)
    | .key =>
      match (Utf8.ofString key)[c.offset]? with
      | some b =>
        let sent := { c with offset := c.offset + 1 }.encode b
        pure (.done (some sent.1, sent.2))
      | none => pure (.again { c with offset := 0, part := .equals })
    | .equals => pure (.done (some equals, { c with part := .value }))
    | .value =>
      match (Utf8.ofString value)[c.offset]? with
      | some b =>
        let sent := { c with offset := c.offset + 1 }.encode b
        pure (.done (some sent.1, sent.2))
      | none => pure (.again { c with offset := 0, part := .separator, pair := c.pair + 1 })

/-- The next byte, if there is one: of an escape that is not sent to its end, or of the pairs. -/
def next (c : FormCursor) : Checked (Option UInt8 × FormCursor) :=
  if c.escaped < c.escape.length then
    match c.escape[c.escaped]? with
    | some b => pure (some b, { c with escaped := c.escaped + 1 })
    | none => throw .outOfRange
  else seek.loop c

/-- Put the next byte behind those in the front of a buffer. -/
def fill : Cycle (Bytes × Nat × FormCursor) (Bytes × Nat × FormCursor) := fun (buffer, n, c) =>
  if n < buffer.length then do
    match ← c.next with
    | (some b, c) =>
      let buffer ← put buffer n [b]
      pure (.again (buffer, n + 1, c))
    | (none, c) => pure (.done (buffer, n, c))
  else pure (.done (buffer, n, c))

/-- Fill a buffer with what comes next. -/
def read (buffer : Bytes) (c : FormCursor) : Checked (Bytes × Nat × FormCursor) :=
  fill.loop (buffer, 0, c)

end FormCursor

/-! ## The length of a form -/

/-- A sum that fits in a word is added up without leaving it, since no part of it is more than the
whole. -/
theorem sum_map_eq {α : Type} {f : α → Nat} {xs : List α}
    (h : xs.foldr (fun x n => f x + n) 0 < UInt64.size) :
    sum (xs.map f) = pure (xs.foldr (fun x n => f x + n) 0) := by
  have hfrom (m : Nat) (h : m + xs.foldr (fun x n => f x + n) 0 < UInt64.size) :
      (xs.map f).foldlM add m = pure (m + xs.foldr (fun x n => f x + n) 0) := by
    induction xs generalizing m with
    | nil => rfl
    | cons x xs ih =>
      rw [List.foldr_cons, ← Nat.add_assoc] at h ⊢
      rw [List.map_cons, List.foldlM_cons, add_eq (by omega), pure_bind]
      exact ih (by omega) _ h
  rw [sum, hfrom 0 (by omega), Nat.zero_add]

theorem sentLength_eq (b : UInt8) : sentLength b = byteLength b := by
  rw [← Form.length_encodeByte, sentLength, encodeByte, escaped?]
  split
  · rfl
  · split <;> rfl

theorem sum_sentLength {s : String} (h : textLength s < UInt64.size) :
    sum ((Utf8.ofString s).map sentLength) = pure (textLength s) := by
  rw [funext sentLength_eq]
  exact sum_map_eq h

/-- The length of a pair is that of its texts and of the sign between them. -/
theorem pairLength_eq {p : Pair} (h : textLength p.1 + 1 + textLength p.2 < UInt64.size) :
    pairLength p = pure (textLength p.1 + 1 + textLength p.2) := by
  have hkey : add 0 (textLength p.1) = pure (textLength p.1) := by
    rw [add_eq (by omega), Nat.zero_add]
  rw [pairLength, sum_sentLength (by omega), pure_bind, sum_sentLength (by omega), pure_bind, sum,
    List.foldlM_cons, hkey, pure_bind, List.foldlM_cons, add_eq (by omega), pure_bind,
    List.foldlM_cons, add_eq (by omega)]
  rfl

/-- The length that is found is the one that is announced, as far as a word can hold it. The sums on
the way are parts of it. -/
theorem formLength_eq {ps : List Pair} (h : encodedLength ps < UInt64.size) :
    formLength ps = pure (encodedLength ps) := by
  unfold encodedLength at h ⊢
  have hpairs : ps.mapM pairLength
      = pure (ps.map fun p => textLength p.1 + 1 + textLength p.2) := by
    have hsum : ps.foldr (fun p n => textLength p.1 + 1 + textLength p.2 + n) 0 < UInt64.size := by
      omega
    clear h
    induction ps with
    | nil => rfl
    | cons p ps ih =>
      rw [List.foldr_cons] at hsum
      rw [List.mapM_cons, pairLength_eq (by omega), pure_bind, ih (by omega), pure_bind,
        List.map_cons]
  rw [formLength, hpairs, pure_bind, sum_map_eq (by omega), pure_bind, add_eq h]

/-! ## The bytes of a form -/

namespace FormCursor

/-- What is left of a pair, from a byte of a part on. -/
def unreadOf (p : Pair) (pair offset : Nat) : Part → Bytes
  | .separator => (if 0 < pair then [ampersand] else []) ++ encodePair p
  | .key => ((Utf8.ofString p.1).drop offset).flatMap encodeByte ++ equals :: encodeText p.2
  | .equals => equals :: encodeText p.2
  | .value => ((Utf8.ofString p.2).drop offset).flatMap encodeByte

/-- What is left of the pairs, from where the form stands. -/
def unread (c : FormCursor) : Bytes :=
  match c.pairs[c.pair]? with
  | none => []
  | some p => unreadOf p c.pair c.offset c.part ++ later (c.pairs.drop (c.pair + 1))

/-- What is left of the encoding: the end of an escape, and what is left of the pairs. -/
def ahead (c : FormCursor) : Bytes :=
  c.escape.drop c.escaped ++ c.unread

/-- An escape has two digits, and a part without bytes of its own is not stood in. -/
structure Stands (c : FormCursor) : Prop where
  escape : c.escape.length = 2
  escaped : c.escaped ≤ 2
  offset : c.part = .separator ∨ c.part = .equals → c.offset = 0

/-- One byte comes, or none where nothing is left. -/
structure Advances (c : FormCursor) (b : Option UInt8) (d : FormCursor) : Prop where
  byte : b = c.ahead.head?
  ahead : d.ahead = c.ahead.tail
  stands : d.Stands
  pairs : d.pairs = c.pairs
  length : d.length = c.length

/-- The form goes on to another part, and nothing comes. -/
structure Passes (c d : FormCursor) : Prop where
  ahead : d.ahead = c.ahead
  stands : d.Stands
  idle : d.escaped = 2
  pairs : d.pairs = c.pairs
  length : d.length = c.length

/-- How many parts are left. -/
def rank (c : FormCursor) : Nat :=
  4 * (c.pairs.length - c.pair) +
    match c.part with
    | .separator => 3
    | .key => 2
    | .equals => 1
    | .value => 0

/-- What a round of the search comes to: another part to look in, or the byte that is next. -/
inductive Sought (c : FormCursor) : Checked (Turn FormCursor (Option UInt8 × FormCursor)) → Prop
  | passes {d : FormCursor} (passes : c.Passes d) (less : d.rank < c.rank) :
    Sought c (pure (.again d))
  | advances {b : Option UInt8} {d : FormCursor} (advances : c.Advances b d) :
    Sought c (pure (.done (b, d)))

variable {c d e : FormCursor} {p : Pair}

theorem Passes.advances {b : Option UInt8} (h : c.Passes d) (hd : d.Advances b e) :
    c.Advances b e :=
  ⟨h.ahead ▸ hd.byte, h.ahead ▸ hd.ahead, hd.stands, hd.pairs.trans h.pairs,
    hd.length.trans h.length⟩

/-- With no escape begun, what is left is what is left of the pairs. -/
theorem Stands.ahead_eq (h : c.Stands) (hidle : c.escaped = 2) : c.ahead = c.unread := by
  rw [ahead, hidle, List.drop_of_length_le (Nat.le_of_eq h.escape), List.nil_append]

/-- What is sent for a byte and what is ahead then: its encoding, with what was unread behind. -/
theorem encode_sends (h : c.Stands) (hidle : c.escaped = 2) (b : UInt8) :
    (c.encode b).1 :: (c.encode b).2.ahead = encodeByte b ++ c.unread ∧ (c.encode b).2.Stands ∧
      (c.encode b).2.pairs = c.pairs ∧ (c.encode b).2.length = c.length := by
  have hahead := h.ahead_eq hidle
  unfold encode encodeByte escaped?
  by_cases hspace : b = space
  · rw [if_pos hspace, if_pos hspace]
    exact ⟨congrArg (plus :: ·) hahead, h, rfl, rfl⟩
  · rw [if_neg hspace, if_neg hspace]
    by_cases hplain : isUnreserved b = true
    · rw [if_pos hplain, if_pos hplain]
      exact ⟨congrArg (b :: ·) hahead, h, rfl, rfl⟩
    · rw [if_neg hplain, if_neg hplain]
      exact ⟨rfl, ⟨rfl, Nat.zero_le _, h.offset⟩, rfl, rfl⟩

/-- A byte that stands first in what is left is sent. -/
theorem Advances.of_encode {b : UInt8} (hahead : c.ahead = encodeByte b ++ d.unread)
    (hstands : d.Stands) (hidle : d.escaped = 2) (hpairs : d.pairs = c.pairs)
    (hlength : d.length = c.length) : c.Advances (some (d.encode b).1) (d.encode b).2 := by
  obtain ⟨hsent, hstands, hpairs', hlength'⟩ := encode_sends hstands hidle b
  rw [← hsent] at hahead
  exact ⟨by rw [hahead]; rfl, by rw [hahead]; rfl, hstands, hpairs'.trans hpairs,
    hlength'.trans hlength⟩

/-- A byte of what is left is sent, and nothing else changes. -/
theorem Advances.of_cons {b : UInt8} (hahead : c.ahead = b :: d.ahead) (hstands : d.Stands)
    (hpairs : d.pairs = c.pairs) (hlength : d.length = c.length) : c.Advances (some b) d :=
  ⟨by rw [hahead]; rfl, by rw [hahead]; rfl, hstands, hpairs, hlength⟩

/-- A text from one of its bytes on. -/
theorem flatMap_drop_of_getElem? {text : Bytes} {offset : Nat} {b : UInt8}
    (h : text[offset]? = some b) :
    (text.drop offset).flatMap encodeByte
      = encodeByte b ++ (text.drop (offset + 1)).flatMap encodeByte := by
  obtain ⟨hlt, rfl⟩ := List.getElem?_eq_some_iff.1 h
  rw [List.drop_eq_getElem_cons hlt, List.flatMap_cons]

theorem flatMap_drop_of_none {text : Bytes} {offset : Nat} (h : text[offset]? = none) :
    (text.drop offset).flatMap encodeByte = [] := by
  rw [List.drop_of_length_le (List.getElem?_eq_none_iff.1 h), List.flatMap_nil]

theorem unread_of_none (h : c.pairs[c.pair]? = none) : c.unread = [] := by
  rw [unread, h]

theorem unread_of_some (h : c.pairs[c.pair]? = some p) :
    c.unread = unreadOf p c.pair c.offset c.part ++ later (c.pairs.drop (c.pair + 1)) := by
  rw [unread, h]

/-- In front of a pair that is not the first one, all that is left follows a separator. -/
theorem unread_of_separator (hpart : c.part = .separator) (hpair : 0 < c.pair) :
    c.unread = later (c.pairs.drop c.pair) := by
  cases hp : c.pairs[c.pair]? with
  | none =>
    rw [unread_of_none hp, List.drop_of_length_le (List.getElem?_eq_none_iff.1 hp)]
    rfl
  | some p =>
    obtain ⟨hlt, hget⟩ := List.getElem?_eq_some_iff.1 hp
    rw [unread_of_some hp, hpart, unreadOf, if_pos hpair, List.drop_eq_getElem_cons hlt, hget]
    rfl

section Seek

variable (h : c.Stands) (hidle : c.escaped = 2) (hp : c.pairs[c.pair]? = some p)

include h hp in
/-- The cursor in another place of the same pair. -/
theorem moved (part : Part) (offset : Nat)
    (hoffset : part = .separator ∨ part = .equals → offset = 0) :
    { c with part, offset : FormCursor }.Stands ∧
      { c with part, offset : FormCursor }.unread
        = unreadOf p c.pair offset part ++ later (c.pairs.drop (c.pair + 1)) :=
  ⟨⟨h.escape, h.escaped, hoffset⟩, unread_of_some hp⟩

include h hidle hp

/-- In front of a pair the separator is next, unless it is the first pair; then the key is looked
at. -/
theorem sought_separator (hpart : c.part = .separator) : c.Sought (seek c) := by
  have hahead := (h.ahead_eq hidle).trans (unread_of_some hp)
  obtain ⟨hstands, hunread⟩ := moved h hp .key c.offset (by simp)
  have hpair : unreadOf p c.pair c.offset .key = encodePair p := by
    rw [unreadOf, h.offset (.inl hpart), List.drop_zero]
    rfl
  rw [hpart, unreadOf, ← hpair, List.append_assoc, ← hunread, ← hstands.ahead_eq hidle] at hahead
  unfold seek
  rw [hp, hpart]
  dsimp only
  by_cases hfirst : 0 < c.pair
  · rw [if_pos hfirst] at hahead ⊢
    exact .advances (.of_cons hahead hstands rfl rfl)
  · rw [if_neg hfirst] at hahead ⊢
    refine .passes ⟨hahead.symm, hstands, hidle, rfl, rfl⟩ ?_
    simp only [rank, hpart]
    omega

/-- In a key its next byte is next, or the rest of an escape. Behind its end the sign is looked
at. -/
theorem sought_key (hpart : c.part = .key) : c.Sought (seek c) := by
  have hahead := (h.ahead_eq hidle).trans (unread_of_some hp)
  rw [hpart, unreadOf] at hahead
  unfold seek
  rw [hp, hpart]
  dsimp only
  cases hbyte : (Utf8.ofString p.1)[c.offset]? with
  | some b =>
    obtain ⟨hstands, hunread⟩ := moved h hp .key (c.offset + 1) (by simp)
    refine .advances (.of_encode ?_ hstands hidle rfl rfl)
    rw [hahead, flatMap_drop_of_getElem? hbyte, hunread, unreadOf, List.append_assoc,
      List.append_assoc, List.append_assoc]
  | none =>
    obtain ⟨hstands, hunread⟩ := moved h hp .equals 0 (fun _ => rfl)
    refine .passes ⟨?_, hstands, hidle, rfl, rfl⟩ ?_
    · rw [hstands.ahead_eq hidle, hunread, hahead, flatMap_drop_of_none hbyte]
      rfl
    · simp only [rank, hpart]
      omega

/-- Between key and value the sign is next, and the value comes behind it. -/
theorem sought_equals (hpart : c.part = .equals) : c.Sought (seek c) := by
  have hahead := (h.ahead_eq hidle).trans (unread_of_some hp)
  obtain ⟨hstands, hunread⟩ := moved h hp .value c.offset (by simp)
  have hvalue : unreadOf p c.pair c.offset .value = encodeText p.2 := by
    rw [unreadOf, h.offset (.inr hpart), List.drop_zero]
    rfl
  rw [hpart, unreadOf, ← hvalue, List.cons_append, ← hunread, ← hstands.ahead_eq hidle] at hahead
  unfold seek
  rw [hp, hpart]
  exact .advances (.of_cons hahead hstands rfl rfl)

/-- In a value its next byte is next, or the rest of an escape. Behind its end the next pair is
looked at, and behind the last one there is nothing. -/
theorem sought_value (hpart : c.part = .value) : c.Sought (seek c) := by
  have hahead := (h.ahead_eq hidle).trans (unread_of_some hp)
  rw [hpart, unreadOf] at hahead
  unfold seek
  rw [hp, hpart]
  dsimp only
  cases hbyte : (Utf8.ofString p.2)[c.offset]? with
  | some b =>
    obtain ⟨hstands, hunread⟩ := moved h hp .value (c.offset + 1) (by simp)
    refine .advances (.of_encode ?_ hstands hidle rfl rfl)
    rw [hahead, flatMap_drop_of_getElem? hbyte, hunread, unreadOf, List.append_assoc]
  | none =>
    have hstands :
        { c with offset := 0, part := .separator, pair := c.pair + 1 : FormCursor }.Stands :=
      ⟨h.escape, h.escaped, fun _ => rfl⟩
    refine .passes ⟨?_, hstands, hidle, rfl, rfl⟩ ?_
    · rw [hstands.ahead_eq hidle, unread_of_separator rfl (Nat.succ_pos _), hahead,
        flatMap_drop_of_none hbyte]
      rfl
    · have hlt : c.pair < c.pairs.length := (List.getElem?_eq_some_iff.1 hp).1
      simp only [rank, hpart]
      omega

end Seek

/-- A round of the search goes on to another part, or ends with the byte that is next. -/
theorem sought (h : c.Stands) (hidle : c.escaped = 2) : c.Sought (seek c) := by
  cases hp : c.pairs[c.pair]? with
  | none =>
    have hahead := (h.ahead_eq hidle).trans (unread_of_none hp)
    unfold seek
    rw [hp]
    exact .advances ⟨by rw [hahead]; rfl, by rw [hahead]; rfl, h, rfl, rfl⟩
  | some p =>
    cases hpart : c.part with
    | separator => exact sought_separator h hidle hp hpart
    | key => exact sought_key h hidle hp hpart
    | equals => exact sought_equals h hidle hp hpart
    | value => exact sought_value h hidle hp hpart

/-- The search ends, with the byte that is next. -/
theorem seek_advances (h : c.Stands) (hidle : c.escaped = 2) :
    ∃ b d, seek.loop c = pure (b, d) ∧ c.Advances b d := by
  -- a part without a byte left leads to the next one, and there are only so many parts
  induction hn : c.rank using Nat.strongRecOn generalizing c with
  | ind n ih =>
    have hsought := sought h hidle
    generalize hround : seek c = result at hsought
    cases hsought with
    | passes passes less =>
      obtain ⟨b, e, hseek, hadvances⟩ := ih _ (hn ▸ less) passes.stands passes.idle rfl
      exact ⟨b, e, (Cycle.loop_of_again hround).trans hseek, passes.advances hadvances⟩
    | advances advances => exact ⟨_, _, Cycle.loop_of_done hround, advances⟩

/-- The next byte is the first of what is left. -/
theorem next_advances (h : c.Stands) : ∃ b d, c.next = pure (b, d) ∧ c.Advances b d := by
  have hescape := h.escape
  have hescaped := h.escaped
  by_cases hmore : c.escaped < c.escape.length
  · have hstands : { c with escaped := c.escaped + 1 : FormCursor }.Stands :=
      ⟨hescape, Nat.lt_of_lt_of_eq hmore hescape, h.offset⟩
    have hahead : c.ahead
        = c.escape[c.escaped] :: { c with escaped := c.escaped + 1 : FormCursor }.ahead := by
      rw [ahead, List.drop_eq_getElem_cons hmore]
      rfl
    refine ⟨_, _, ?_, .of_cons hahead hstands rfl rfl⟩
    rw [next, if_pos hmore, List.getElem?_eq_getElem hmore]
  · rw [next, if_neg hmore]
    exact seek_advances h (by omega)

/-! ## Reads of a form -/

/-- Bytes that are put behind others which were just put. -/
theorem put_behind {buffer front : Bytes} {n : Nat} (h : n + front.length ≤ buffer.length)
    (data : Bytes) :
    let before := buffer.take n ++ front ++ buffer.drop (n + front.length)
    before.take (n + front.length) ++ data ++ before.drop (n + front.length + data.length)
      = buffer.take n ++ (front ++ data) ++ buffer.drop (n + front.length + data.length) := by
  intro before
  have hfront : (buffer.take n ++ front).length = n + front.length := by
    rw [List.length_append, List.length_take_of_le (by omega)]
  have htake : before.take (n + front.length) = buffer.take n ++ front := List.take_left' hfront
  have hdrop : before.drop (n + front.length) = buffer.drop (n + front.length) :=
    List.drop_left' hfront
  rw [htake, ← List.drop_drop, hdrop, List.drop_drop, List.append_assoc (buffer.take n)]

/-- The rounds of a read put what is left behind the bytes in the front of a buffer, as far as there
is room. -/
theorem fill_advances {buffer : Bytes} {n : Nat} (hn : n ≤ buffer.length) (h : c.Stands) :
    let front := c.ahead.take (buffer.length - n)
    ∃ d, fill.loop (buffer, n, c)
        = pure (buffer.take n ++ front ++ buffer.drop (n + front.length), n + front.length, d) ∧
      d.Stands ∧ d.ahead = c.ahead.drop (buffer.length - n) ∧ d.pairs = c.pairs ∧
      d.length = c.length := by
  -- on the room that is left: a byte that is put takes one cell of it
  induction hroom : buffer.length - n generalizing buffer n c with
  | zero =>
    have hfull : fill (buffer, n, c) = pure (.done (buffer, n, c)) := if_neg (by omega)
    refine ⟨c, ?_, h, rfl, rfl, rfl⟩
    rw [Cycle.loop_of_done hfull, List.take_zero, List.append_nil, List.length_nil, Nat.add_zero,
      List.take_append_drop]
  | succ room ih =>
    have hlt : n < buffer.length := by omega
    obtain ⟨b, d, hnext, hadvances⟩ := next_advances h
    cases hahead : c.ahead with
    | nil =>
      have hnone : b = none := by rw [hadvances.byte, hahead]; rfl
      have hover : fill (buffer, n, c) = pure (.done (buffer, n, d)) := by
        rw [fill, if_pos hlt, hnext, hnone]
        rfl
      refine ⟨d, ?_, hadvances.stands, ?_, hadvances.pairs, hadvances.length⟩
      · rw [Cycle.loop_of_done hover, List.take_nil, List.append_nil, List.length_nil, Nat.add_zero,
          List.take_append_drop]
      · rw [hadvances.ahead, hahead, List.tail_nil, List.drop_nil]
    | cons first rest =>
      have hsome : b = some first := by rw [hadvances.byte, hahead]; rfl
      have hrest : d.ahead = rest := by rw [hadvances.ahead, hahead]; rfl
      have hput : n + [first].length ≤ buffer.length := hlt
      have hsize := length_put hput
      have hagain : fill (buffer, n, c) = pure (.again
          (buffer.take n ++ [first] ++ buffer.drop (n + [first].length), n + 1, d)) := by
        rw [fill, if_pos hlt, hnext, hsome, pure_bind]
        dsimp only
        rw [put_eq hput]
        rfl
      obtain ⟨e, hfill, hstands, hleft, hpairs, hlength⟩ :=
        @ih d _ (n + 1) (hsize ▸ hlt) hadvances.stands (by rw [hsize]; omega)
      refine ⟨e, ?_, hstands, ?_, hpairs.trans hadvances.pairs, hlength.trans hadvances.length⟩
      · have hfront : n + [first].length = n + 1 := rfl
        rw [Cycle.loop_of_again hagain, hfill, hrest, ← hfront, put_behind hput,
          List.take_succ_cons]
        simp only [List.singleton_append, List.length_cons, List.length_nil, Nat.add_assoc,
          Nat.add_comm 1]
      · rw [hleft, hrest]
        rfl

/-- A read fills the front of a buffer with what is left, and leaves the rest of it. -/
theorem read_advances (h : c.Stands) (buffer : Bytes) :
    let front := c.ahead.take buffer.length
    ∃ d, c.read buffer = pure (front ++ buffer.drop front.length, front.length, d) ∧ d.Stands ∧
      d.ahead = c.ahead.drop buffer.length ∧ d.pairs = c.pairs ∧ d.length = c.length := by
  have hfill := fill_advances (Nat.zero_le buffer.length) h
  simp only [Nat.sub_zero, List.take_zero, List.nil_append, Nat.zero_add] at hfill
  exact hfill

/-- A form from its start, whatever was left of an escape. -/
theorem ahead_reset (h : c.Stands) : c.reset.Stands ∧ c.reset.ahead = Form.encode c.pairs := by
  have hstands : c.reset.Stands := ⟨h.escape, Nat.le_of_eq h.escape, fun _ => rfl⟩
  refine ⟨hstands, (hstands.ahead_eq h.escape).trans ?_⟩
  unfold unread reset
  dsimp only
  cases c.pairs <;> rfl

/-- A form whose encoding a word can count stands at its start, and has the length of its
encoding. -/
theorem ofPairs_eq {ps : List Pair} (h : (Form.encode ps).length < UInt64.size) :
    ∃ c, ofPairs ps = pure c ∧ c.Stands ∧ c.pairs = ps ∧ c.length = (Form.encode ps).length ∧
      c.ahead = Form.encode ps := by
  refine ⟨{ pairs := ps, length := (Form.encode ps).length }, ?_,
    ⟨rfl, Nat.le_refl _, fun _ => rfl⟩, rfl, rfl, ?_⟩
  · rw [Form.length_encode] at h ⊢
    rw [ofPairs, formLength_eq h, pure_bind]
  · cases ps <;> rfl

end FormCursor

end Machine

end DeviceHttp
