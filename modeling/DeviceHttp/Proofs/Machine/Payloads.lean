import DeviceHttp.Proofs.Machine.Cursors

/-!
# The text of a body

What a body is made from is its payload, and the text of the body is known from that alone: the
bytes themselves, the written form of a value, or the pairs of a form, spelled byte by byte out of
tables (`Form.spellPairs`). Whatever the reads and resets of a body, it stands at some byte of this
text, in memory too (`Payload.uses_give_front`).
-/

namespace DeviceHttp

/-! ## How pairs are spelled -/

namespace Form

/-- The bytes that are spelled as they are. -/
def unreserved : Bytes :=
  Utf8.ofString "ABCDEFGHIJKLMNOPQRSTUVWXYZabcdefghijklmnopqrstuvwxyz0123456789-._~"

/-- The digits in the order of their values. -/
def digits : Bytes :=
  Utf8.ofString "0123456789ABCDEF"

/-- How a byte is spelled. -/
def spell (b : UInt8) : Bytes :=
  if b = 32 then Utf8.ofString "+"
  else if b ∈ unreserved then [b]
  else Utf8.ofString "%" ++ [digits.getD (b.toNat / 16) 0, digits.getD (b.toNat % 16) 0]

def spellText (s : String) : Bytes :=
  (Utf8.ofString s).flatMap spell

/-- How pairs are spelled, with `=` in each of them and `&` between them. -/
def spellPairs (ps : List Pair) : Bytes :=
  List.intercalate (Utf8.ofString "&")
    (ps.map fun p => spellText p.1 ++ Utf8.ofString "=" ++ spellText p.2)

theorem spell_eq (b : UInt8) : spell b = encodeByte b := by
  have : ∀ n : Fin 256, spell (UInt8.ofNat n) = encodeByte (UInt8.ofNat n) := by decide +kernel
  have hb := this ⟨b.toNat, b.toNat_lt⟩
  rwa [UInt8.ofNat_toNat] at hb

theorem spellText_eq (s : String) : spellText s = encodeText s := by
  rw [spellText, encodeText, funext spell_eq]

/-- Pairs are spelled with their separators, as they are encoded. -/
theorem spellPairs_eq (ps : List Pair) : spellPairs ps = encode ps := by
  have hpair (p : Pair) : spellText p.1 ++ Utf8.ofString "=" ++ spellText p.2 = encodePair p := by
    rw [spellText_eq, spellText_eq, List.append_assoc]
    rfl
  rw [spellPairs, funext hpair]
  cases ps with
  | nil => rfl
  | cons p ps =>
    rw [encode, List.map_cons]
    induction ps generalizing p with
    | nil => simp [List.intercalate]
    | cons q ps ih =>
      rw [List.map_cons, List.intercalate_cons_cons, ih, List.append_assoc]
      rfl

end Form

/-! ## Bodies of every kind -/

/-- What a body is made from. -/
inductive Payload
  | text (bytes : Bytes)
  | form (pairs : List Form.Pair)
  /-- A value whose written form has a place of so many bytes. -/
  | json (capacity : Nat) (value : Json.Value)

/-- What is done with a body. -/
inductive Use
  | reset
  | read (buffer : Bytes)

/-- Where in a text a use leaves a body that stood at a byte of it. -/
def Use.leaves (content : Bytes) (k : Nat) : Use → Nat
  | reset => 0
  | read buffer => k + ((content.drop k).take buffer.length).length

/-- Where uses leave a body is in the text. -/
theorem Use.foldl_leaves_le {content : Bytes} {k : Nat} (h : k ≤ content.length) (uses : List Use) :
    uses.foldl (leaves content) k ≤ content.length := by
  induction uses generalizing k with
  | nil => exact h
  | cons u uses ih =>
    refine ih ?_
    cases u with
    | reset => exact Nat.zero_le _
    | read buffer =>
      rw [leaves, List.length_take, List.length_drop]
      omega

/-- What a read leaves of a text is the text behind what it gave. -/
theorem drop_length_take (content : Bytes) (k room : Nat) :
    (content.drop k).drop room = content.drop (k + ((content.drop k).take room).length) := by
  rw [← List.drop_drop, List.length_take]
  by_cases h : room ≤ (content.drop k).length
  · rw [Nat.min_eq_left h]
  · rw [Nat.min_eq_right (by omega), List.drop_length, List.drop_of_length_le (by omega)]

/-- And what it gave is the text up to there. -/
theorem take_append_take (content : Bytes) (k room : Nat) :
    content.take k ++ (content.drop k).take room
      = content.take (k + ((content.drop k).take room).length) := by
  rw [List.take_add, List.length_take, ← List.take_eq_take_min]

namespace Source

/-- A source that is used, with what it gave since it was last at its start. -/
def use : Bytes × Source → Use → Bytes × Source
  | (_, s), .reset => ([], s.reset)
  | (got, s), .read buffer => (got ++ (s.read buffer.length).1, (s.read buffer.length).2)

def useAll (s : Source) (uses : List Use) : Bytes × Source :=
  uses.foldl use ([], s)

/-- The source stands at a byte of a text. -/
inductive At (content : Bytes) (k : Nat) : Source → Prop
  | fixed {contentType : String} {rest : Bytes} (left : rest = content.drop k) :
    At content k (.fixed ⟨contentType, content, rest⟩)
  | form {body : FormBody} (whole : Form.encode body.pairs = content)
    (left : body.remaining = content.drop k) : At content k (.form body)

namespace At

variable {content : Bytes} {k : Nat} {s : Source}

theorem length (h : s.At content k) : s.length = content.length := by
  cases h with
  | fixed left => rfl
  | form whole left => rw [← whole, Form.length_encode]; rfl

theorem reset (h : s.At content k) : s.reset.At content 0 := by
  cases h with
  | fixed left => exact .fixed rfl
  | @form body whole left =>
    refine .form ?_ ((FormBody.remaining_ofPairs _).trans whole)
    obtain ⟨pairs, ready, later⟩ := body
    cases pairs <;> exact whole

/-- A read neither traps nor runs forever, and puts what is next into the front of the buffer. What
stands behind that in the buffer stays. -/
theorem read (h : s.At content k) (room : Nat) :
    (s.read room).1 = (content.drop k).take room ∧
      (s.read room).2.At content (k + ((content.drop k).take room).length) := by
  cases h with
  | fixed left =>
    subst left
    exact ⟨rfl, .fixed (drop_length_take content k room)⟩
  | @form body whole left =>
    refine ⟨?_, .form whole ?_⟩
    · show (body.read room).1 = _
      rw [body.read_fst, left]
    · rw [body.remaining_read, left, drop_length_take]

/-- A read goes on behind what came before, and a reset drops all that came; either way the source
stands behind what is left of it. -/
theorem use (h : s.At content k) (u : Use) :
    ∃ t, Source.use (content.take k, s) u = (content.take (u.leaves content k), t) ∧
      t.At content (u.leaves content k) := by
  cases u with
  | reset => exact ⟨_, rfl, h.reset⟩
  | read buffer =>
    obtain ⟨hread, hleft⟩ := h.read buffer.length
    refine ⟨_, ?_, hleft⟩
    rw [Source.use, hread, take_append_take]
    rfl

/-- However a source is used, what came since the last reset is the front of its content. The
induction is over the uses, with the place at which the source stands. -/
theorem useAll (h : s.At content 0) (uses : List Use) :
    ∃ t, s.useAll uses = (content.take (uses.foldl (Use.leaves content) 0), t) ∧
      t.At content (uses.foldl (Use.leaves content) 0) := by
  have hfrom {k : Nat} {s : Source} (h : s.At content k) :
      ∃ t, uses.foldl Source.use (content.take k, s)
          = (content.take (uses.foldl (Use.leaves content) k), t) ∧
        t.At content (uses.foldl (Use.leaves content) k) := by
    induction uses generalizing k s with
    | nil => exact ⟨s, rfl, h⟩
    | cons u uses ih =>
      obtain ⟨t, huse, ht⟩ := h.use u
      rw [List.foldl_cons, List.foldl_cons, huse]
      exact ih ht
  exact hfrom h

end At

end Source

namespace Machine

/-- A body as it stands in memory. -/
inductive Reader
  | place (c : Cursor)
  | form (c : FormCursor)

namespace Reader

def length : Reader → Nat
  | place c => c.length
  | form c => c.length

def reset : Reader → Reader
  | place c => place c.reset
  | form c => form c.reset

/-- Fill the front of a buffer: the buffer, how many bytes are in it, and the body behind them. -/
def read (buffer : Bytes) : Reader → Checked (Bytes × Nat × Reader)
  | place c => do
    let (buffer, n, c) ← c.read buffer
    pure (buffer, n, place c)
  | form c => do
    let (buffer, n, c) ← c.read buffer
    pure (buffer, n, form c)

/-- A body that is used, with what it gave since it was last at its start. -/
def use : Bytes × Reader → Use → Checked (Bytes × Reader)
  | (_, r), .reset => pure ([], r.reset)
  | (got, r), .read buffer => do
    let (buffer, n, r) ← r.read buffer
    pure (got ++ buffer.take n, r)

def useAll (r : Reader) (uses : List Use) : Checked (Bytes × Reader) :=
  uses.foldlM use ([], r)

/-- The body stands at a byte of a text. -/
inductive At (content : Bytes) (k : Nat) : Reader → Prop
  | place {c : Cursor} (size : c.length = content.length) (held : c.length ≤ c.cells.length)
    (front : c.cells.take c.length = content) (position : c.position = k)
    (inside : k ≤ content.length) : At content k (.place c)
  | form {c : FormCursor} (size : c.length = content.length)
    (whole : Form.encode c.pairs = content) (stands : c.Stands)
    (left : c.ahead = content.drop k) : At content k (.form c)

namespace At

variable {content : Bytes} {k : Nat} {r : Reader}

theorem length (h : r.At content k) : r.length = content.length := by
  cases h with
  | place size => exact size
  | form size => exact size

theorem reset (h : r.At content k) : r.reset.At content 0 := by
  cases h with
  | place size held front position inside => exact .place size held front rfl (Nat.zero_le _)
  | form size whole stands left =>
    obtain ⟨hstands, hahead⟩ := FormCursor.ahead_reset stands
    exact .form size whole hstands (hahead.trans whole)

/-- A read neither traps nor runs forever, and puts what is next into the front of the buffer. -/
theorem read (h : r.At content k) (buffer : Bytes) :
    let front := (content.drop k).take buffer.length
    ∃ q, r.read buffer = pure (front ++ buffer.drop front.length, front.length, q) ∧
      q.At content (k + front.length) := by
  intro front
  cases h with
  | @place c size held whole position inside =>
    have hrest : slice c.cells c.position c.length = pure (content.drop k) := by
      rw [slice_eq (by omega) held, whole, position]
    have hcount : min (content.drop k).length buffer.length = front.length := by
      rw [List.length_take, Nat.min_comm]
    have hleft : front.length ≤ (content.drop k).length := by rw [List.length_take]; omega
    have hfront : (content.drop k).take front.length = front := by
      rw [List.length_take, ← List.take_eq_take_min]
    have hroom : 0 + front.length ≤ buffer.length := by rw [List.length_take]; omega
    have hinside : k + front.length ≤ content.length := by
      rw [List.length_take, List.length_drop]
      omega
    refine ⟨.place { c with position := k + front.length }, ?_, .place size held whole rfl hinside⟩
    have hread : c.read buffer = pure (front ++ buffer.drop front.length, front.length,
        { c with position := k + front.length }) := by
      rw [Cursor.read, hrest, pure_bind, hcount]
      dsimp only
      rw [slice_zero hleft, pure_bind, hfront, put_eq hroom, pure_bind, position, Nat.zero_add]
      rfl
    rw [Reader.read, hread]
    rfl
  | @form c size whole stands left =>
    obtain ⟨d, hread, hstands, hahead, hpairs, hlength⟩ := FormCursor.read_advances stands buffer
    rw [left] at hread hahead
    refine ⟨.form d, ?_, .form (hlength.trans size) (hpairs ▸ whole) hstands ?_⟩
    · rw [Reader.read, hread]
      rfl
    · rw [hahead, drop_length_take]

/-- One use of a reader in memory does not leave its words, and brings what a use of the content
brings. -/
theorem use (h : r.At content k) (u : Use) :
    ∃ q, Reader.use (content.take k, r) u = pure (content.take (u.leaves content k), q) ∧
      q.At content (u.leaves content k) := by
  cases u with
  | reset => exact ⟨_, rfl, h.reset⟩
  | read buffer =>
    obtain ⟨q, hread, hq⟩ := h.read buffer
    refine ⟨q, ?_, hq⟩
    rw [Reader.use, hread, pure_bind]
    dsimp only
    rw [List.take_left, take_append_take]
    rfl

/-- However a reader in memory is used, it stays in its words and brings the front of its
content. -/
theorem useAll (h : r.At content 0) (uses : List Use) :
    ∃ q, r.useAll uses = pure (content.take (uses.foldl (Use.leaves content) 0), q) ∧
      q.At content (uses.foldl (Use.leaves content) 0) := by
  have hfrom {k : Nat} {r : Reader} (h : r.At content k) :
      ∃ q, uses.foldlM Reader.use (content.take k, r)
          = pure (content.take (uses.foldl (Use.leaves content) k), q) ∧
        q.At content (uses.foldl (Use.leaves content) k) := by
    induction uses generalizing k r with
    | nil => exact ⟨r, rfl, h⟩
    | cons u uses ih =>
      obtain ⟨q, huse, hq⟩ := h.use u
      rw [List.foldlM_cons, huse, pure_bind]
      exact ih hq
  exact hfrom h

end At

end Reader

end Machine

namespace Payload

open Machine (Checked Cursor FormCursor Reader)

/-- The text of a body. -/
def content : Payload → Bytes
  | text bytes => bytes
  | form pairs => Form.spellPairs pairs
  | json _ value => value.write

/-- The source over a payload. -/
def source : Payload → Except Json.WriteError Source
  | text bytes => .ok (.fixed (.ofBytes bytes))
  | form pairs => .ok (.form (.ofPairs pairs))
  | json capacity value => (FixedBody.ofJson capacity value).map .fixed

/-- The same in memory, where a value is written into the front of an empty place. -/
def reader : Payload → Checked (Except Json.WriteError Reader)
  | text bytes => pure (.ok (.place { cells := bytes, length := bytes.length }))
  | form pairs => do
    let c ← FormCursor.ofPairs pairs
    pure (.ok (.form c))
  | json capacity value =>
    let written := value.write
    if written.length ≤ capacity then
      pure (.ok (.place { cells := written ++ List.replicate (capacity - written.length) 0,
                          length := written.length }))
    else pure (.error .bufferFull)

variable {p : Payload} {s : Source}

/-- A source starts at the start of the text. -/
theorem source_at (h : p.source = .ok s) : s.At p.content 0 := by
  cases p with
  | text bytes =>
    cases h
    exact .fixed rfl
  | form pairs =>
    cases h
    have hwhole : Form.encode (FormBody.ofPairs pairs).pairs = Form.spellPairs pairs := by
      rw [Form.spellPairs_eq]
      cases pairs <;> rfl
    refine .form hwhole ?_
    rw [FormBody.remaining_ofPairs, ← Form.spellPairs_eq]
    rfl
  | json capacity value =>
    rw [source, FixedBody.ofJson] at h
    split at h
    · cases h
      exact .fixed rfl
    · cases h

/-- And so does the body in memory, if a word can hold its length. -/
theorem reader_at (h : p.source = .ok s) (hword : p.content.length < UInt64.size) :
    ∃ r, p.reader = pure (.ok r) ∧ r.At p.content 0 := by
  cases p with
  | text bytes =>
    exact ⟨_, rfl, .place rfl (Nat.le_refl _) (List.take_length ..) rfl (Nat.zero_le _)⟩
  | form pairs =>
    rw [content, Form.spellPairs_eq] at hword ⊢
    obtain ⟨c, hmade, hstands, rfl, hlength, hahead⟩ := FormCursor.ofPairs_eq hword
    refine ⟨.form c, ?_, .form hlength rfl hstands hahead⟩
    rw [reader, hmade, pure_bind]
  | json capacity value =>
    have hfits : value.write.length ≤ capacity := by
      refine Nat.le_of_not_lt fun hover => ?_
      rw [source, FixedBody.ofJson, if_neg (Nat.not_le_of_lt hover)] at h
      cases h
    refine ⟨_, if_pos hfits, .place rfl ?_ List.take_left rfl (Nat.zero_le _)⟩
    rw [List.length_append]
    exact Nat.le_add_right _ _

/-- What a body gave since it was last at its start is a front of one text, which is known from what
the body was made from, and as long as was announced. The next read gives what is behind that as far
as there is room, and so it gives nothing in a buffer with room only if all was given. In memory the
same comes, without a trap and without an end of waiting; a read changes no more of a buffer than it
fills. -/
theorem uses_give_front (h : p.source = .ok s) (uses : List Use) :
    let got := (s.useAll uses).1
    let after := (s.useAll uses).2
    got <+: p.content ∧ after.length = p.content.length ∧
      (∀ room, (after.read room).1 = (p.content.drop got.length).take room ∧
        (after.read room).1.length = min room (p.content.length - got.length) ∧
        (0 < room → ((after.read room).1 = [] ↔ got = p.content))) ∧
      (p.content.length < UInt64.size → ∃ r q, p.reader = pure (.ok r) ∧
        r.useAll uses = pure (got, q) ∧ q.length = p.content.length ∧
        ∀ buffer : Bytes, let next := (after.read buffer.length).1
          ∃ later, q.read buffer = pure (next ++ buffer.drop next.length, next.length, later)) := by
  intro got after
  let k := uses.foldl (Use.leaves p.content) 0
  obtain ⟨t, huses, ht⟩ := (source_at h).useAll uses
  have hk : k ≤ p.content.length := Use.foldl_leaves_le (Nat.zero_le _) uses
  have hgot : got = p.content.take k := congrArg Prod.fst huses
  have hafter : after = t := congrArg Prod.snd huses
  have hlength : got.length = k := by rw [hgot, List.length_take_of_le hk]
  have hall : got = p.content ↔ p.content.length ≤ k :=
    ⟨fun h => Nat.le_of_eq (h ▸ hlength), fun h => hgot.trans (List.take_of_length_le h)⟩
  rw [hafter]
  refine ⟨hgot ▸ List.take_prefix k _, ht.length, fun room => ?_, fun hword => ?_⟩
  · have hread := (ht.read room).1
    rw [hread, hlength]
    refine ⟨rfl, ?_, fun hroom => ?_⟩
    · rw [List.length_take, List.length_drop]
    · rw [hall, List.take_eq_nil_iff, List.drop_eq_nil_iff]
      omega
  · obtain ⟨r, hmade, hr⟩ := reader_at h hword
    obtain ⟨q, hsame, hq⟩ := hr.useAll uses
    refine ⟨r, q, hmade, ?_, hq.length, fun buffer => ?_⟩
    · rw [hgot]
      exact hsame
    · obtain ⟨later, hread, -⟩ := hq.read buffer
      rw [(ht.read buffer.length).1]
      exact ⟨later, hread⟩

/-- A form that is taken to its start in the middle of an escape. -/
theorem uses_give_front_of_escape :
    let source := Source.form (.ofPairs [("a b", "ü")])
    let uses : List Use :=
      [.read (List.replicate 6 0), .reset, .read [0, 0], .read (List.replicate 4 0)]
    (Payload.form [("a b", "ü")]).source = .ok source ∧
      (source.useAll uses).1 = Utf8.ofString "a+b=%C" ∧
      (source.useAll uses).1 <+: Utf8.ofString "a+b=%C3%BC" := by
  have hspelled : (Payload.form [("a b", "ü")]).content = Utf8.ofString "a+b=%C3%BC" := by
    decide +kernel
  exact ⟨rfl, by decide +kernel, hspelled ▸ (uses_give_front rfl _).1⟩

end Payload

end DeviceHttp
