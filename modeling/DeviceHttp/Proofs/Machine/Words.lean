import DeviceHttp.Transfer.Window

/-!
# Words and cells

On a device an index is a word, a buffer is an array of cells, and whoever takes a number from a
smaller one, adds up to more than a word holds or looks behind the end of an array is stopped there.
`Checked` is what such a program comes to: a value, a `Trap`, or nothing if it runs forever.

`Cells` is the working buffer in this form: an array and two indices. It holds a window
(`Cells.Holds`) if the bytes between the indices are the pending ones, and then no operation on it
traps, and each does what the one on the window does.
-/

namespace DeviceHttp.Machine

open Window (crlf)

/-! ## Checked arithmetic -/

/-- What stops a program. -/
inductive Trap
  /-- A sum that no word holds. -/
  | overflow
  /-- A difference below zero. -/
  | underflow
  /-- An index behind the end of an array. -/
  | outOfRange
  /-- An assertion that does not hold. -/
  | assertion
  deriving DecidableEq, Repr

/-- What a program comes to; one that runs forever comes to `none`. -/
abbrev Checked := ExceptT Trap Option

/-- The sum of two words. -/
def add (m n : Nat) : Checked Nat :=
  if m + n < UInt64.size then pure (m + n) else throw .overflow

/-- The difference of two words. -/
def sub (m n : Nat) : Checked Nat :=
  if n ≤ m then pure (m - n) else throw .underflow

/-- The cells of an array from one index up to another. -/
def slice (bytes : Bytes) (start stop : Nat) : Checked Bytes :=
  if start ≤ stop ∧ stop ≤ bytes.length then pure ((bytes.take stop).drop start)
  else throw .outOfRange

/-- An array with these bytes in its cells from an index on. -/
def put (bytes : Bytes) (start : Nat) (data : Bytes) : Checked Bytes :=
  if start + data.length ≤ bytes.length then
    pure (bytes.take start ++ data ++ bytes.drop (start + data.length))
  else throw .outOfRange

theorem add_eq {m n : Nat} (h : m + n < UInt64.size) : add m n = pure (m + n) :=
  if_pos h

theorem sub_eq {m n : Nat} (h : n ≤ m) : sub m n = pure (m - n) :=
  if_pos h

theorem slice_eq {bytes : Bytes} {start stop : Nat} (h : start ≤ stop)
    (hstop : stop ≤ bytes.length) :
    slice bytes start stop = pure ((bytes.take stop).drop start) :=
  if_pos ⟨h, hstop⟩

/-- The cells in front of an index. -/
theorem slice_zero {bytes : Bytes} {stop : Nat} (h : stop ≤ bytes.length) :
    slice bytes 0 stop = pure (bytes.take stop) :=
  slice_eq (Nat.zero_le stop) h

theorem put_eq {bytes data : Bytes} {start : Nat} (h : start + data.length ≤ bytes.length) :
    put bytes start data = pure (bytes.take start ++ data ++ bytes.drop (start + data.length)) :=
  if_pos h

theorem length_put {bytes data : Bytes} {start : Nat} (h : start + data.length ≤ bytes.length) :
    (bytes.take start ++ data ++ bytes.drop (start + data.length)).length = bytes.length := by
  simp only [List.length_append, List.length_take, List.length_drop]
  omega

/-! ## Words of 32 bits -/

/-- The sum of two words of 32 bits. -/
def addShort (m n : Nat) : Checked Nat :=
  if m + n < UInt32.size then pure (m + n) else throw .overflow

/-- A number as a word of 32 bits, if it is one. -/
def toShort (n : Nat) : Checked Nat :=
  if n < UInt32.size then pure n else throw .overflow

theorem addShort_eq {m n : Nat} (h : m + n < UInt32.size) : addShort m n = pure (m + n) :=
  if_pos h

theorem toShort_eq {n : Nat} (h : n < UInt32.size) : toShort n = pure n :=
  if_pos h

/-! ## The working buffer -/

/-- A buffer as an array of cells: those in front of `consumed` are done with, and those from
`filled` on are free. -/
structure Cells where
  bytes : Bytes
  consumed : Nat := 0
  filled : Nat := 0
  deriving DecidableEq, Repr

namespace Cells

/-- The bytes that wait. -/
def pending (c : Cells) : Checked Bytes :=
  slice c.bytes c.consumed c.filled

/-- How many bytes wait. -/
def held (c : Cells) : Checked Nat :=
  sub c.filled c.consumed

def clear (c : Cells) : Cells :=
  { c with consumed := 0, filled := 0 }

/-- Consume bytes at the front. -/
def consume (n : Nat) (c : Cells) : Checked Cells := do
  let held ← c.held
  if n ≤ held then
    let stop ← add c.consumed n
    let consumed := min stop c.filled
    pure (if consumed = c.filled then c.clear else { c with consumed })
  else throw .assertion

/-- Whether no byte fits, even behind a move to the front. -/
def isFull (c : Cells) : Checked Bool := do
  let held ← c.held
  pure (held = c.bytes.length)

/-- Move the bytes that wait to the front. -/
def compact (c : Cells) : Checked Cells :=
  if 0 < c.consumed then do
    let moved ← c.pending
    let bytes ← put c.bytes 0 moved
    let filled ← c.held
    pure { bytes, filled }
  else pure c

/-- Where the first end of a line starts. -/
def crlfAt : Bytes → Option Nat
  | a :: b :: bytes => if [a, b] = crlf then some 0 else (crlfAt (b :: bytes)).map (· + 1)
  | _ => none

/-- Where the first end of a line starts among the bytes that wait. -/
def findCrlf (c : Cells) : Checked (Option Nat) := do
  let pending ← c.pending
  pure (crlfAt pending)

/-- The bytes between the two indices are those that wait in a window of this size. -/
structure Holds (c : Cells) (w : Window) : Prop where
  size : c.bytes.length = w.capacity
  word : w.capacity < UInt64.size
  consumed : c.consumed = w.gap
  filled : c.filled = w.gap + w.pending.length
  pending : (c.bytes.take c.filled).drop c.consumed = w.pending

namespace Holds

variable {c : Cells} {w : Window}

theorem filled_le (h : c.Holds w) : c.filled ≤ c.bytes.length := by
  rw [h.filled, h.size]
  exact w.fits

theorem consumed_le (h : c.Holds w) : c.consumed ≤ c.filled := by
  rw [h.consumed, h.filled]
  exact Nat.le_add_right _ _

theorem clear (h : c.Holds w) : c.clear.Holds w.clear :=
  ⟨h.size, h.word, rfl, rfl, rfl⟩

theorem pending_eq (h : c.Holds w) : c.pending = pure w.pending := by
  rw [Cells.pending, slice_eq h.consumed_le h.filled_le, h.pending]

theorem held_eq (h : c.Holds w) : c.held = pure w.pending.length := by
  rw [held, sub_eq h.consumed_le, h.filled, h.consumed, Nat.add_sub_cancel_left]

theorem isFull_eq (h : c.Holds w) : c.isFull = pure w.isFull := by
  have hfits := w.fits
  have hfull : decide (w.pending.length = c.bytes.length) = w.isFull := by
    rw [Window.isFull, h.size]
    exact decide_eq_decide.2 (by omega)
  rw [isFull, h.held_eq, pure_bind, hfull]

/-- Consuming no more than waits moves an index, and the subtraction and the sum in it stay in a
word. -/
theorem consume_eq (h : c.Holds w) {n : Nat} (hn : n ≤ w.pending.length) :
    ∃ d, c.consume n = pure d ∧ d.Holds (w.consume n) := by
  have hfilled := h.filled
  have hconsumed := h.consumed
  have hstop : c.consumed + n ≤ c.filled := by omega
  have hword : c.consumed + n < UInt64.size :=
    Nat.lt_of_le_of_lt (Nat.le_trans hstop h.filled_le) (h.size ▸ h.word)
  rw [Cells.consume, h.held_eq, pure_bind, if_pos hn, add_eq hword, pure_bind,
    Nat.min_eq_left hstop]
  refine ⟨_, rfl, ?_⟩
  unfold Window.consume
  by_cases hall : w.pending.length ≤ n
  · rw [if_pos (by omega), dif_pos hall]
    exact h.clear
  · rw [if_neg (by omega), dif_neg hall]
    refine ⟨h.size, h.word, congrArg (· + n) hconsumed, ?_, ?_⟩
    · show c.filled = w.gap + n + (w.pending.drop n).length
      rw [List.length_drop]
      omega
    · show (c.bytes.take c.filled).drop (c.consumed + n) = w.pending.drop n
      rw [← List.drop_drop, h.pending]

/-- Moving what waits to the front of the cells stays within them, and leaves the same bytes
waiting. -/
theorem compact_eq (h : c.Holds w) :
    ∃ d, c.compact = pure d ∧ d.Holds w.compact ∧ d.filled = w.pending.length := by
  have hfilled := h.filled
  have hconsumed := h.consumed
  have hfits := w.fits
  by_cases hgap : 0 < c.consumed
  · have hput : 0 + w.pending.length ≤ c.bytes.length := by rw [h.size]; omega
    rw [Cells.compact, if_pos hgap, h.pending_eq, pure_bind, put_eq hput, pure_bind, h.held_eq,
      pure_bind]
    refine ⟨_, rfl, ⟨(length_put hput).trans h.size, h.word, rfl, (Nat.zero_add _).symm, ?_⟩, rfl⟩
    simp
  · rw [Cells.compact, if_neg hgap]
    have hzero : c.consumed = 0 := Nat.eq_zero_of_not_pos hgap
    have hsame : c.filled = 0 + w.pending.length := by omega
    exact ⟨c, rfl, ⟨h.size, h.word, hzero, hsame, h.pending⟩, by omega⟩

/-- What arrives is put behind the bytes that wait. -/
theorem extend (h : c.Holds w.compact) {got : Bytes} (hgot : got.length ≤ w.compact.room) :
    ∃ bytes, put c.bytes c.filled got = pure bytes ∧
      Holds ⟨bytes, c.consumed, c.filled + got.length⟩ (w.extend got) := by
  have hfilled : c.filled = w.pending.length := h.filled.trans (Nat.zero_add _)
  have hfits := w.compact.fits
  have hput : c.filled + got.length ≤ c.bytes.length := by
    rw [h.size]
    simp only [Window.compact, Window.room] at hgot hfits ⊢
    omega
  have htake : got.take w.compact.room = got := List.take_of_length_le hgot
  refine ⟨_, put_eq hput, (length_put hput).trans h.size, h.word, h.consumed, ?_, ?_⟩
  · show c.filled + got.length = 0 + (w.pending ++ got.take w.compact.room).length
    rw [htake, List.length_append, hfilled, Nat.zero_add]
  · show ((c.bytes.take c.filled ++ got ++ _).take (c.filled + got.length)).drop c.consumed
      = w.pending ++ got.take w.compact.room
    have hzero : c.consumed = 0 := h.consumed
    have hpending := h.pending
    rw [hzero, List.drop_zero] at hpending
    rw [htake, hzero, List.drop_zero, hpending]
    have hlength : (w.compact.pending ++ got).length = c.filled + got.length := by
      rw [List.length_append, hfilled]
      rfl
    rw [List.take_append_of_le_length (Nat.le_of_eq hlength.symm), ← hlength, List.take_length]
    rfl

end Holds

/-- The search for a line end by its index finds the place where a stream is cut. -/
theorem crlfAt_eq (bytes : Bytes) :
    crlfAt bytes = (Cut.around crlf bytes).map fun parts => parts.1.length := by
  have hfront (a b : UInt8) (bytes : Bytes) :
      crlf.isPrefixOf (a :: b :: bytes) = true ↔ [a, b] = crlf := by
    rw [List.isPrefixOf_iff_prefix, crlf, List.cons_prefix_cons, List.cons_prefix_cons]
    simp [eq_comm]
  fun_induction crlfAt bytes with
  | case1 a b bytes h =>
    rw [Cut.around, if_pos ((hfront a b bytes).2 h)]
    rfl
  | case2 a b bytes h ih =>
    rw [Cut.around, if_neg (mt (hfront a b bytes).1 h), ih, Option.map_map, Option.map_map]
    rfl
  | case3 bytes h =>
    rcases bytes with _ | ⟨a, _ | ⟨b, bytes⟩⟩
    · rfl
    · rw [Cut.around, if_neg (by simp [crlf])]
      rfl
    · exact (h a b bytes rfl).elim

theorem Holds.findCrlf_eq {c : Cells} {w : Window} (h : c.Holds w) :
    c.findCrlf = pure w.lineLength? := by
  rw [findCrlf, h.pending_eq, pure_bind, crlfAt_eq]
  rfl

end Cells

end DeviceHttp.Machine
