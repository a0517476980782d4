import DeviceHttp.Proofs.Machine.Replies
import DeviceHttp.Proofs.Machine.Supplies
import Mathlib.Data.List.Forall2
import Mathlib.Data.Nat.Digits.Defs

/-!
# Sizes of chunks, read and written

The size of a chunk is a numeral of base sixteen, given by what each digit is worth at its place
(`Hex.Numeral`). The reader multiplies and adds with words and gives up where a word is too small;
it accepts exactly the lines that start with a numeral below the limit, however many zeros lead it
(`Chunk.parseSize_eq_ok_iff_starts`). The line of the writer has room for every word, and the reader
takes what is written there (`Machine.sizes_read_back`).
-/

namespace DeviceHttp

open Window (crlf)

/-! ## Numerals of base sixteen -/

namespace Hex

/-- The byte is the digit of this value: `0` to `9`, or `A` to `F` in either case. -/
def Writes (b : UInt8) (d : Nat) : Prop :=
  d < 10 ∧ b.toNat = '0'.toNat + d ∨
    10 ≤ d ∧ d < 16 ∧ (b.toNat = 'A'.toNat + (d - 10) ∨ b.toNat = 'a'.toNat + (d - 10))

/-- The bytes are the digits of a number, the most significant one first: each place is worth
sixteen times the one behind it. -/
def Numeral (digits : Bytes) (n : Nat) : Prop :=
  ∃ ds : List Nat, List.Forall₂ Writes digits ds ∧ Nat.ofDigits 16 ds.reverse = n

/-- The written form of a number: its numeral in upper case, with no zero in front of other
digits. -/
structure Plain (digits : Bytes) (n : Nat) : Prop where
  numeral : Numeral digits n
  upper : ∀ b ∈ digits, b.toNat ≤ 'F'.toNat
  short : digits.head? = some '0'.toUInt8 → digits = ['0'.toUInt8]

variable {b : UInt8} {d n : Nat} {digits : Bytes}

theorem digit?_eq_some_iff : digit? b = some d ↔ Writes b d := by
  simp only [digit?, Writes, UInt8.le_iff_toNat_le, UInt8.reduceToNat, Char.reduceToNat]
  split_ifs <;> simp only [Option.some.injEq, false_iff] <;> omega

theorem isDigit_iff : isDigit b = true ↔ ∃ d, Writes b d := by
  rw [isDigit, Option.isSome_iff_exists]
  exact exists_congr fun d => digit?_eq_some_iff

/-- Digits and no other bytes have values, which are told by the bytes. -/
theorem forall₂_writes_iff {ds : List Nat} :
    List.Forall₂ Writes digits ds ↔
      (∀ b ∈ digits, isDigit b = true) ∧ (digits.map fun b => (digit? b).getD 0) = ds := by
  constructor
  · intro h
    induction h with
    | nil => exact ⟨nofun, rfl⟩
    | @cons b d digits ds hb _ ih =>
      refine ⟨List.forall_mem_cons.2 ⟨isDigit_iff.2 ⟨d, hb⟩, ih.1⟩, ?_⟩
      rw [List.map_cons, ih.2, digit?_eq_some_iff.2 hb, Option.getD_some]
  · rintro ⟨hdigits, rfl⟩
    rw [List.forall₂_map_right_iff, List.forall₂_same]
    intro b hb
    obtain ⟨d, hd⟩ := Option.isSome_iff_exists.1 (hdigits b hb)
    rw [hd, Option.getD_some]
    exact digit?_eq_some_iff.1 hd

/-- To read digits from the front is to add up what they are worth at their places. -/
theorem value_eq_ofDigits (digits : Bytes) :
    value digits = Nat.ofDigits 16 (digits.map fun b => (digit? b).getD 0).reverse := by
  rw [Nat.ofDigits_eq_foldr, List.foldr_reverse, List.foldl_map, value]
  simp only [Nat.cast_id, Nat.add_comm]

theorem numeral_iff :
    Numeral digits n ↔ (∀ b ∈ digits, isDigit b = true) ∧ value digits = n := by
  unfold Numeral
  simp only [forall₂_writes_iff, and_assoc, exists_and_left, exists_eq_left', value_eq_ofDigits]

/-! ### Numbers as they are written -/

theorem toNat_digit_le {d : Nat} (h : d < 16) : (digit d).toNat ≤ 'F'.toNat := by
  have : ∀ e : Fin 16, (digit e).toNat ≤ 'F'.toNat := by decide
  exact this ⟨d, h⟩

theorem digit_eq_zero_iff {d : Nat} (h : d < 16) : digit d = '0'.toUInt8 ↔ d = 0 := by
  have : ∀ e : Fin 16, digit e = '0'.toUInt8 ↔ (e : Nat) = 0 := by decide
  exact this ⟨d, h⟩

/-- A number other than zero does not start with a zero. -/
theorem head?_render_ne (h : n ≠ 0) : (render n).head? ≠ some '0'.toUInt8 := by
  induction n using Nat.strongRecOn with
  | ind n ih =>
    by_cases hn : n < 16
    · rw [render_of_lt hn, List.head?_cons, ne_eq, Option.some.injEq, digit_eq_zero_iff hn]
      exact h
    · rw [render_of_le (Nat.not_lt.1 hn), List.head?_append_of_ne_nil _ (render_ne_nil _)]
      exact ih (n / 16) (by omega) (by omega)

/-- The digits that are written are below the letters of the lower case. -/
theorem toNat_le_of_mem_render (h : b ∈ render n) : b.toNat ≤ 'F'.toNat := by
  induction n using Nat.strongRecOn with
  | ind n ih =>
    by_cases hn : n < 16
    · rw [render_of_lt hn, List.mem_singleton] at h
      exact h ▸ toNat_digit_le hn
    · rw [render_of_le (Nat.not_lt.1 hn), List.mem_append, List.mem_singleton] at h
      rcases h with h | rfl
      · exact ih (n / 16) (by omega) h
      · exact toNat_digit_le (Nat.mod_lt n (by decide))

/-- A number is written with as few digits as spell it, and in upper case. -/
theorem plain_render (n : Nat) : Plain (render n) n where
  numeral := numeral_iff.2 ⟨List.all_eq_true.1 (all_isDigit_render n), value_render n⟩
  upper _ := toNat_le_of_mem_render
  short h := by
    by_cases hn : n = 0
    · rw [hn, render_of_lt (by decide)]
      rfl
    · exact absurd h (head?_render_ne hn)

end Hex

/-! ## Lines that start with a size -/

namespace Chunk

/-- A line starts with a size below 2⁶⁴: a numeral that goes on as long as there are digits, with
nothing behind it, or a semicolon, a space or a tab. -/
def StartsWith (line : Bytes) (size : Nat) : Prop :=
  ∃ digits rest, line = digits ++ rest ∧ digits ≠ [] ∧ Hex.Numeral digits size ∧
    (∀ b ∈ rest.head?, ∀ d, ¬ Hex.Writes b d) ∧
    (∀ b ∈ rest.head?, b = ';'.toUInt8 ∨ b = ' '.toUInt8 ∨ b = '\t'.toUInt8) ∧ size < 2 ^ 64

variable {line : Bytes} {size : Nat}

theorem endsSize_iff {b : UInt8} :
    endsSize b = true ↔ b = ';'.toUInt8 ∨ b = ' '.toUInt8 ∨ b = '\t'.toUInt8 := by
  rw [endsSize, Bool.or_eq_true, Bool.or_eq_true, decide_eq_true_eq, decide_eq_true_eq,
    decide_eq_true_eq, or_assoc]
  rfl

/-- A line starts with a number that is told by its places exactly if it spells it by adding up from
the left. -/
theorem startsWith_iff_spells : StartsWith line size ↔ Spells line size := by
  constructor
  · rintro ⟨digits, rest, rfl, hne, hnumeral, -, hends, hlt⟩
    obtain ⟨hdigits, hvalue⟩ := Hex.numeral_iff.1 hnumeral
    exact ⟨digits, rest, rfl, hne, hdigits, fun b hb => endsSize_iff.2 (hends b hb), hvalue, hlt⟩
  · rintro ⟨digits, rest, rfl, hne, hdigits, hends, hvalue, hlt⟩
    refine ⟨digits, rest, rfl, hne, Hex.numeral_iff.2 ⟨hdigits, hvalue⟩, fun b hb d hd => ?_,
      fun b hb => endsSize_iff.1 (hends b hb), hlt⟩
    -- what may follow a size is no digit, so the digits are all there are
    have hnot := isDigit_eq_false_of_endsSize (hends b hb)
    rw [Hex.isDigit_iff.2 ⟨d, hd⟩] at hnot
    cases hnot

theorem parseSize_eq_ok_iff_starts : parseSize line = .ok size ↔ StartsWith line size :=
  parseSize_eq_ok_iff.trans startsWith_iff_spells.symm

/-- A size is refused exactly if the line starts with no number in range, and always with the same
error. -/
theorem parseSize_eq_error_iff {e : TransferError} :
    parseSize line = .error e ↔ e = .protocol ∧ ∀ size, ¬ StartsWith line size := by
  constructor
  · intro h
    have hnone : ∀ size, ¬ StartsWith line size := fun size hstarts =>
      nomatch h.symm.trans (parseSize_eq_ok_iff_starts.2 hstarts)
    have hprotocol := parseSize_of_not_spells fun size =>
      mt startsWith_iff_spells.2 (hnone size)
    exact ⟨Except.error.inj (h.symm.trans hprotocol), hnone⟩
  · rintro ⟨rfl, hnone⟩
    exact parseSize_of_not_spells fun size => mt startsWith_iff_spells.2 (hnone size)

end Chunk

/-! ## Reading and writing with words -/

namespace Machine

/-- With words and checks, a line is read as a size exactly if it starts with one, and is refused
exactly if it starts with none. The line that is written for a size holds its digits and the end of
the line, in twenty bytes at most, and the digits are read back as the size. -/
theorem sizes_read_back :
    (∀ line : Bytes,
      parseSize line = pure (Chunk.parseSize line) ∧
      (∀ size, Chunk.parseSize line = .ok size ↔ Chunk.StartsWith line size) ∧
      (Chunk.parseSize line = .error .protocol ↔ ∀ size, ¬ Chunk.StartsWith line size)) ∧
    ∀ n : UInt64, ∃ digits, sizeLine n.toNat = digits ++ crlf ∧
      (digits ++ crlf).length ≤ 20 ∧ Hex.Plain digits n.toNat ∧
      parseSize digits = pure (.ok n.toNat) := by
  refine ⟨fun line => ⟨parseSize_eq line, fun size => Chunk.parseSize_eq_ok_iff_starts, ?_⟩,
    fun n => ⟨Hex.render n.toNat, sizeLine_eq n.toNat_lt, ?_, Hex.plain_render _, ?_⟩⟩
  · rw [Chunk.parseSize_eq_error_iff, and_iff_right rfl]
  · exact Nat.le_trans (Chunk.length_sizeLine_le n.toNat_lt) (by decide)
  · rw [parseSize_eq, Chunk.parseSize_eq_ok_iff.2 (Chunk.spells_render n.toNat_lt)]

end Machine

end DeviceHttp
