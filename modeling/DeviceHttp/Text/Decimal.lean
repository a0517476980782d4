import DeviceHttp.Text.Cut

/-!
# Decimal numbers in text

Numbers are written with the fewest digits and read with any number of leading zeros.
`Decimal.value_render` is the round trip. A reader is given the first value that does not fit, so
the same reader serves ports, status codes, lengths and manifest fields.
-/

namespace DeviceHttp.Decimal

/-- The character for a digit below ten. -/
def digit (n : Nat) : Char :=
  Char.ofNat ('0'.toNat + n)

/-- The number that a list of digits spells, most significant digit first. -/
def value (ds : List Char) : Nat :=
  ds.foldl (fun n c => 10 * n + (c.toNat - '0'.toNat)) 0

/-- The digits of a number, without leading zeros. -/
def render (n : Nat) : List Char :=
  if n < 10 then [digit n] else render (n / 10) ++ [digit (n % 10)]

/-- The written form of a number as a text. -/
def text (n : Nat) : String :=
  String.ofList (render n)

/-- A number below one hundred on exactly two digits. -/
def twoDigits (n : Nat) : List Char :=
  [digit (n / 10), digit (n % 10)]

/-- At least one digit, and nothing else. -/
def isNumeral (cs : List Char) : Bool :=
  !cs.isEmpty && cs.all Char.isDigit

/-- The value of a non-empty list of digits, if it is below `limit`. -/
def digits? (limit : Nat) (cs : List Char) : Option Nat :=
  if isNumeral cs && value cs < limit then some (value cs) else none

/-- Like `digits?`, and one plus sign may stand in front. -/
def number? (limit : Nat) : List Char → Option Nat
  | '+' :: cs => digits? limit cs
  | cs => digits? limit cs

/-- The digits at the front of a text, and what follows them. -/
def span (cs : List Char) : List Char × List Char :=
  (cs.takeWhile Char.isDigit, cs.dropWhile Char.isDigit)

theorem span_append (cs : List Char) : (span cs).1 ++ (span cs).2 = cs :=
  List.takeWhile_append_dropWhile

/-- The digits in front of something that does not start with one. -/
theorem span_of_digits {ds rest : List Char} (hds : ∀ c ∈ ds, c.isDigit = true)
    (hrest : ∀ c ∈ rest.head?, c.isDigit = false) : span (ds ++ rest) = (ds, rest) := by
  obtain ⟨htake, hdrop⟩ := Cut.while_append hds hrest
  rw [span, htake, hdrop]

theorem range_of_isDigit {c : Char} (h : c.isDigit = true) : 48 ≤ c.toNat ∧ c.toNat ≤ 57 := by
  simpa [Char.isDigit, UInt32.le_iff_toNat_le] using h

theorem digit_toNat {n : Nat} (h : n < 10) : (digit n).toNat - '0'.toNat = n := by
  have : ∀ m : Fin 10, (digit m).toNat - '0'.toNat = m := by decide
  exact this ⟨n, h⟩

theorem isDigit_digit {n : Nat} (h : n < 10) : (digit n).isDigit = true := by
  have : ∀ m : Fin 10, (digit m).isDigit = true := by decide
  exact this ⟨n, h⟩

theorem value_append_singleton (ds : List Char) (c : Char) :
    value (ds ++ [c]) = 10 * value ds + (c.toNat - '0'.toNat) := by
  simp [value]

/-- Reading the written form of a number gives the number. -/
@[simp] theorem value_render (n : Nat) : value (render n) = n := by
  induction n using Nat.strongRecOn with
  | ind n ih =>
    rw [render]
    split
    · next h =>
      have := value_append_singleton [] (digit n)
      rw [digit_toNat h] at this
      simpa [value] using this
    · next h =>
      rw [value_append_singleton, ih (n / 10) (by omega), digit_toNat (Nat.mod_lt n (by decide))]
      omega

theorem render_ne_nil (n : Nat) : render n ≠ [] := by
  rw [render]
  split <;> simp

theorem all_isDigit_render (n : Nat) : (render n).all Char.isDigit = true := by
  induction n using Nat.strongRecOn with
  | ind n ih =>
    rw [render]
    split
    · next h => simp [isDigit_digit h]
    · next h => simp [ih (n / 10) (by omega), isDigit_digit (Nat.mod_lt n (by decide))]

theorem isNumeral_iff {cs : List Char} :
    isNumeral cs = true ↔ cs ≠ [] ∧ ∀ c ∈ cs, c.isDigit = true := by
  simp [isNumeral]

theorem digits?_eq_some_iff {limit n : Nat} {cs : List Char} :
    digits? limit cs = some n ↔
      cs ≠ [] ∧ (∀ c ∈ cs, c.isDigit = true) ∧ value cs < limit ∧ value cs = n := by
  rw [digits?, Option.ite_none_right_eq_some, Bool.and_eq_true, isNumeral_iff, decide_eq_true_eq,
    Option.some.injEq, and_assoc, and_assoc]

/-- A plus sign, if there is one, is not among the digits. -/
theorem number?_cases {limit n : Nat} {cs : List Char}
    (h : number? limit cs = some n) :
    (∃ ds, cs = '+' :: ds ∧ digits? limit ds = some n) ∨
      cs.head? ≠ some '+' ∧ digits? limit cs = some n := by
  unfold number? at h
  split at h
  · exact .inl ⟨_, rfl, h⟩
  · next hplus =>
    refine .inr ⟨fun hhead => ?_, h⟩
    cases cs with
    | nil => cases hhead
    | cons c cs => exact hplus cs (congrArg (· :: cs) (Option.some.inj hhead))

theorem number?_eq_some_iff {limit n : Nat} {cs : List Char} :
    number? limit cs = some n ↔
      ∃ sign digits, cs = sign ++ digits ∧ (sign = [] ∨ sign = ['+']) ∧
        digits? limit digits = some n := by
  constructor
  · intro h
    rcases number?_cases h with ⟨ds, rfl, hds⟩ | ⟨-, hds⟩
    · exact ⟨['+'], ds, rfl, .inr rfl, hds⟩
    · exact ⟨[], cs, rfl, .inl rfl, hds⟩
  · rintro ⟨sign, digits, rfl, rfl | rfl, hdigits⟩
    · rw [List.nil_append, number?]
      · exact hdigits
      · -- a plus sign is no digit
        rintro ds rfl
        exact absurd ((digits?_eq_some_iff.1 hdigits).2.1 '+' List.mem_cons_self) (by decide)
    · exact hdigits

end DeviceHttp.Decimal
