import DeviceHttp.Text.Cut
import DeviceHttp.Text.Utf8

/-!
# The working buffer

All bytes of a response pass through one buffer of fixed size. It holds the bytes that were received
and not yet consumed, behind a gap of bytes that were consumed. Compacting closes the gap; what is
seen of the buffer is only the list `pending` and its size. Gap and pending bytes fit in every window
that can be built, so no operation has to say what it would do with one that overflows.
-/

namespace DeviceHttp

/-- A buffer of fixed size with the bytes that wait in it. -/
structure Window where
  capacity : Nat
  capacity_pos : 0 < capacity
  /-- How many bytes at the front were consumed. -/
  gap : Nat := 0
  /-- The bytes behind the gap. -/
  pending : Bytes := []
  fits : gap + pending.length ≤ capacity := by simp
  deriving DecidableEq

namespace Window

/-- The end of a line. -/
def crlf : Bytes := [13, 10]

/-- How many bytes fit behind the pending ones. -/
def room (w : Window) : Nat :=
  w.capacity - (w.gap + w.pending.length)

/-- Whether no byte fits, even without the gap. -/
def isFull (w : Window) : Bool :=
  w.capacity ≤ w.pending.length

/-- Forget all bytes. -/
def clear (w : Window) : Window :=
  { w with gap := 0, pending := [], fits := Nat.zero_le _ }

/-- Close the gap. -/
def compact (w : Window) : Window :=
  { w with gap := 0, fits := Nat.le_trans (Nat.add_le_add_right (Nat.zero_le _) _) w.fits }

/-- Consume bytes at the front; a buffer without pending bytes has no gap. -/
def consume (n : Nat) (w : Window) : Window :=
  if h : w.pending.length ≤ n then w.clear
  else
    { w with
      gap := w.gap + n
      pending := w.pending.drop n
      fits := by
        have := w.fits
        rw [List.length_drop]
        omega }

/-- Close the gap and add the bytes that fit. -/
def extend (bytes : Bytes) (w : Window) : Window :=
  { w.compact with
    pending := w.pending ++ bytes.take w.compact.room
    fits := by
      have := w.compact.fits
      simp only [compact, room, List.length_append, List.length_take] at this ⊢
      omega }

/-- The length of the first line among the pending bytes, if its end is there. -/
def lineLength? (w : Window) : Option Nat :=
  (Cut.around crlf w.pending).map fun parts => parts.1.length

theorem length_pending_le (w : Window) : w.pending.length ≤ w.capacity :=
  Nat.le_trans (Nat.le_add_left _ _) w.fits

/-- A window that is not full has room for a byte. -/
theorem lt_of_not_isFull {w : Window} (h : ¬ w.isFull = true) : w.pending.length < w.capacity := by
  simpa [isFull] using h

@[simp] theorem capacity_clear (w : Window) : w.clear.capacity = w.capacity := rfl

@[simp] theorem pending_clear (w : Window) : w.clear.pending = [] := rfl

/-- Of a window that is cleared only its size is left. -/
theorem clear_eq_of_capacity_eq {v w : Window} (h : v.capacity = w.capacity) :
    v.clear = w.clear := by
  cases v
  cases w
  cases h
  rfl

@[simp] theorem pending_compact (w : Window) : w.compact.pending = w.pending := rfl

theorem room_compact (w : Window) : w.compact.room = w.capacity - w.pending.length := by
  simp [room, compact]

@[simp] theorem capacity_consume (n : Nat) (w : Window) : (w.consume n).capacity = w.capacity := by
  unfold consume
  split <;> rfl

/-- Consuming drops bytes from the front. -/
@[simp] theorem pending_consume (n : Nat) (w : Window) :
    (w.consume n).pending = w.pending.drop n := by
  unfold consume
  split
  · next h => simp [List.drop_of_length_le h]
  · rfl

@[simp] theorem capacity_extend (bytes : Bytes) (w : Window) :
    (w.extend bytes).capacity = w.capacity := rfl

/-- Extending adds the bytes that fit behind the pending ones. -/
theorem pending_extend (bytes : Bytes) (w : Window) :
    (w.extend bytes).pending = w.pending ++ bytes.take (w.capacity - w.pending.length) := by
  simp [extend, room_compact]

/-- A line and its end lie among the pending bytes. -/
theorem lineLength?_le {w : Window} {n : Nat} (h : w.lineLength? = some n) :
    n + 2 ≤ w.pending.length := by
  obtain ⟨⟨line, rest⟩, hcut, rfl⟩ := Option.map_eq_some_iff.1 h
  have := congrArg List.length (Cut.eq_append_of_around hcut)
  simp only [crlf, List.length_append, List.length_cons, List.length_nil] at this
  show line.length + 2 ≤ _
  omega

end Window

end DeviceHttp
