import DeviceHttp.Text.Utf8

/-!
# Hexadecimal numbers in bytes

Chunk sizes and percent escapes. Letters are read in either case and written in upper case;
`Hex.value_render` is the round trip of a number and `Hex.digit?_digit` that of one digit.
-/

namespace DeviceHttp.Hex

/-- The value of a hexadecimal digit of either case. -/
def digit? (b : UInt8) : Option Nat :=
  if 48 ≤ b ∧ b ≤ 57 then some (b.toNat - 48)
  else if 65 ≤ b ∧ b ≤ 70 then some (b.toNat - 55)
  else if 97 ≤ b ∧ b ≤ 102 then some (b.toNat - 87)
  else none

/-- Whether a byte is a hexadecimal digit. -/
def isDigit (b : UInt8) : Bool :=
  (digit? b).isSome

/-- The byte for a digit below sixteen, in upper case. -/
def digit (n : Nat) : UInt8 :=
  UInt8.ofNat (if n < 10 then 48 + n else 55 + n)

/-- The number that a list of digits spells, most significant digit first. -/
def value (ds : Bytes) : Nat :=
  ds.foldl (fun n b => 16 * n + (digit? b).getD 0) 0

/-- The digits of a number, without leading zeros. -/
def render (n : Nat) : Bytes :=
  if n < 16 then [digit n] else render (n / 16) ++ [digit (n % 16)]

/-- A byte on exactly two digits. -/
def pair (b : UInt8) : Bytes :=
  [digit (b.toNat / 16), digit (b.toNat % 16)]

/-- The byte that two digits spell; a byte that is no digit counts as zero. -/
def byte (high low : UInt8) : UInt8 :=
  UInt8.ofNat (16 * (digit? high).getD 0 + (digit? low).getD 0)

theorem digit?_digit {n : Nat} (h : n < 16) : digit? (digit n) = some n := by
  have : ∀ m : Fin 16, digit? (digit m) = some m.val := by decide
  exact this ⟨n, h⟩

theorem isDigit_digit {n : Nat} (h : n < 16) : isDigit (digit n) = true := by
  simp [isDigit, digit?_digit h]

/-- A byte is read off its own two digits. -/
theorem byte_pair (b : UInt8) : byte (digit (b.toNat / 16)) (digit (b.toNat % 16)) = b := by
  have hlt : b.toNat < 256 := b.toNat_lt
  rw [byte, digit?_digit (by omega), digit?_digit (Nat.mod_lt _ (by decide))]
  rw [Option.getD_some, Option.getD_some, Nat.div_add_mod, UInt8.ofNat_toNat]

theorem value_append_singleton (ds : Bytes) (b : UInt8) :
    value (ds ++ [b]) = 16 * value ds + (digit? b).getD 0 := by
  simp [value]

/-- Reading the written form of a number gives the number. -/
@[simp] theorem value_render (n : Nat) : value (render n) = n := by
  induction n using Nat.strongRecOn with
  | ind n ih =>
    rw [render]
    split
    · next h =>
      have := value_append_singleton [] (digit n)
      rw [digit?_digit h] at this
      simpa [value] using this
    · next h =>
      rw [value_append_singleton, ih (n / 16) (by omega), digit?_digit (Nat.mod_lt n (by decide))]
      simp only [Option.getD_some]
      omega

theorem render_ne_nil (n : Nat) : render n ≠ [] := by
  rw [render]
  split <;> simp

theorem all_isDigit_render (n : Nat) : (render n).all isDigit = true := by
  induction n using Nat.strongRecOn with
  | ind n ih =>
    rw [render]
    split
    · next h => simp [isDigit_digit h]
    · next h => simp [ih (n / 16) (by omega), isDigit_digit (Nat.mod_lt n (by decide))]

end DeviceHttp.Hex
