import DeviceHttp.Firmware.Checksum
import Mathlib.Algebra.Field.ZMod
import Mathlib.Algebra.Polynomial.Div
import Mathlib.RingTheory.AdjoinRoot

/-!
# What the checksums are

The sum is the sum of the bytes, as far as a word of 16 bits holds it. The cyclic redundancy check is
the one of IEEE 802.3: the bits of the message, those of each byte from the lowest one on, are the
coefficients of a polynomial over the field of two elements, the highest power first, and the check
is the remainder of a division by the generator (`Checksum.crcRemainder`). The register of a digest is
such a polynomial too, and a step of it is a multiplication by `X` (`Checksum.reflected_crcBit`).
-/

open Polynomial

namespace DeviceHttp.Checksum

/-! ## Numbers as polynomials -/

/-- The polynomial whose coefficients are the lowest bits of a number, the lowest bit with the
highest power. -/
noncomputable def reflected (width n : Nat) : (ZMod 2)[X] :=
  ∑ i ∈ Finset.range width, if n.testBit i then X ^ (width - 1 - i) else 0

/-- The polynomial by which the check divides. -/
noncomputable def generator : (ZMod 2)[X] :=
  X ^ 32 + X ^ 26 + X ^ 23 + X ^ 22 + X ^ 16 + X ^ 12 + X ^ 11 + X ^ 10 + X ^ 8 + X ^ 7 + X ^ 5
    + X ^ 4 + X ^ 2 + X + 1

/-- The polynomial of a message: the first bit that is sent has the highest power, and of each byte
the lowest bit is sent first. -/
noncomputable def message : Bytes → (ZMod 2)[X]
  | [] => 0
  | b :: bs => X ^ (8 * bs.length) * reflected 8 b.toNat + message bs

/-- The remainder that the check is made from: the message is followed by 32 bits that are zero, and
the first 32 bits are complemented. -/
noncomputable def crcRemainder (bs : Bytes) : (ZMod 2)[X] :=
  (X ^ 32 * message bs + X ^ (8 * bs.length) * ∑ i ∈ Finset.range 32, X ^ i) %ₘ generator

variable {width m n k : Nat}

/-- The coefficients are the bits of the number, counted from the highest of so many. -/
theorem coeff_reflected (width n k : Nat) :
    (reflected width n).coeff k = if k < width ∧ n.testBit (width - 1 - k) then 1 else 0 := by
  rw [reflected, finsetSum_coeff]
  by_cases hk : k < width
  · rw [Finset.sum_eq_single (width - 1 - k)]
    · have hback : width - 1 - (width - 1 - k) = k := by omega
      rw [hback]
      by_cases hbit : n.testBit (width - 1 - k) = true
      · rw [if_pos hbit, if_pos ⟨hk, hbit⟩, coeff_X_pow_self]
      · rw [if_neg hbit, if_neg (fun h => hbit h.2), coeff_zero]
    · intro i hi hne
      have hi := Finset.mem_range.1 hi
      split
      · rw [coeff_X_pow, if_neg (by omega)]
      · rfl
    · intro hout
      exact absurd (Finset.mem_range.2 (by omega)) hout
  · rw [if_neg (fun h => hk h.1)]
    refine Finset.sum_eq_zero fun i hi => ?_
    have hi := Finset.mem_range.1 hi
    split
    · rw [coeff_X_pow, if_neg (by omega)]
    · rfl

theorem degree_reflected_lt (width n : Nat) : (reflected width n).degree < width := by
  rw [degree_lt_iff_coeff_zero]
  intro k hk
  rw [coeff_reflected, if_neg (fun h => absurd h.1 (Nat.not_lt.2 hk))]

/-- A number is told by its polynomial, as far as its bits go. -/
theorem reflected_injective (hm : m < 2 ^ width) (hn : n < 2 ^ width)
    (h : reflected width m = reflected width n) : m = n := by
  refine Nat.eq_of_testBit_eq fun i => ?_
  by_cases hi : i < width
  · have hcoeff := congrArg (coeff · (width - 1 - i)) h
    have hback : width - 1 - (width - 1 - i) = i := by omega
    simp only [coeff_reflected, hback] at hcoeff
    have hlt : width - 1 - i < width := by omega
    simp only [hlt, true_and] at hcoeff
    cases hbit : m.testBit i <;> cases hbit' : n.testBit i <;> simp [hbit, hbit'] at hcoeff ⊢
  · have hle : 2 ^ width ≤ 2 ^ i := Nat.pow_le_pow_right (by decide) (Nat.le_of_not_lt hi)
    rw [Nat.testBit_lt_two_pow (Nat.lt_of_lt_of_le hm hle),
      Nat.testBit_lt_two_pow (Nat.lt_of_lt_of_le hn hle)]

/-- Exclusive or is addition. -/
theorem reflected_xor (width m n : Nat) :
    reflected width (m ^^^ n) = reflected width m + reflected width n := by
  ext k
  rw [coeff_add, coeff_reflected, coeff_reflected, coeff_reflected, Nat.testBit_xor]
  by_cases hk : k < width
  · cases m.testBit (width - 1 - k) <;> cases n.testBit (width - 1 - k) <;> simp [hk]
    decide
  · simp [hk]

/-- A shift is a multiplication by `X`, without the power that leaves the register: the bit that
falls out stands for it. -/
theorem reflected_shiftRight (hn : n < 2 ^ (width + 1)) :
    reflected (width + 1) (n >>> 1) + (if n.testBit 0 then X ^ (width + 1) else 0)
      = X * reflected (width + 1) n := by
  ext k
  have hpower : (if n.testBit 0 then X ^ (width + 1) else 0 : (ZMod 2)[X]).coeff k
      = if k = width + 1 ∧ n.testBit 0 then 1 else 0 := by
    cases n.testBit 0 <;> simp [coeff_X_pow]
  rw [coeff_add, hpower, coeff_reflected, Nat.testBit_shiftRight]
  cases k with
  | zero =>
    have htop : n.testBit (1 + width) = false := Nat.testBit_lt_two_pow (by rwa [Nat.add_comm])
    simp [htop]
  | succ k =>
    rw [coeff_X_mul, coeff_reflected]
    rcases Nat.lt_trichotomy k width with hk | rfl | hk
    · have hbit : 1 + (width + 1 - 1 - (k + 1)) = width + 1 - 1 - k := by omega
      have hlow : ¬ (k + 1 = width + 1 ∧ n.testBit 0 = true) := by omega
      rw [if_neg hlow, add_zero, hbit]
      exact if_congr (and_congr_left' (by omega)) rfl rfl
    · simp
    · rw [if_neg (by omega), if_neg (by omega), if_neg (by omega), add_zero]

/-- A number of fewer bits stands at the high powers. -/
theorem reflected_add (hn : n < 2 ^ width) (more : Nat) :
    reflected (width + more) n = X ^ more * reflected width n := by
  ext k
  rw [coeff_X_pow_mul', coeff_reflected, coeff_reflected]
  by_cases hk : more ≤ k
  · have hbit : width + more - 1 - k = width - 1 - (k - more) := by omega
    have hlt : k < width + more ↔ k - more < width := by omega
    rw [if_pos hk, hbit]
    exact if_congr (and_congr_left' hlt) rfl rfl
  · have hhigh : n.testBit (width + more - 1 - k) = false :=
      Nat.testBit_lt_two_pow
        (Nat.lt_of_lt_of_le hn (Nat.pow_le_pow_right (by decide) (by omega)))
    rw [if_neg hk, hhigh, if_neg (by simp)]

/-! ## The register -/

theorem generator_eq : generator = X ^ 32 + reflected 32 0xEDB88320 := by
  have hbits : reflected 32 0xEDB88320 = X ^ 26 + X ^ 23 + X ^ 22 + X ^ 16 + X ^ 12 + X ^ 11
      + X ^ 10 + X ^ 8 + X ^ 7 + X ^ 5 + X ^ 4 + X ^ 2 + X + 1 := by
    simp [reflected, Finset.sum_range_succ, Nat.testBit, Nat.shiftRight_eq_div_pow]
  rw [generator, hbits]
  ring

theorem monic_generator : generator.Monic := by
  rw [generator_eq]
  exact monic_X_pow_add (degree_reflected_lt 32 _)

theorem degree_generator : generator.degree = 32 := by
  rw [generator_eq, degree_add_eq_left_of_degree_lt, degree_X_pow]
  · rfl
  · rw [degree_X_pow]
    exact degree_reflected_lt 32 _

/-- One bit of the check in numbers: a shift, and the generator if a bit falls out. -/
theorem toNat_crcBit (r : UInt32) :
    (crcBit r).toNat
      = if r.toNat.testBit 0 then (r.toNat >>> 1) ^^^ 0xEDB88320 else r.toNat >>> 1 := by
  have hodd : (r &&& 1 = 1) ↔ r.toNat.testBit 0 = true := by
    rw [← UInt32.toNat_inj, UInt32.toNat_and, UInt32.toNat_one, Nat.and_one_is_mod,
      Nat.testBit_zero, decide_eq_true_eq]
  rw [crcBit, if_congr hodd rfl rfl]
  split <;> simp

/-- A step of the register is a multiplication by `X`. The generator is taken from a product that has
a power too many. -/
theorem reflected_crcBit (r : UInt32) :
    reflected 32 (crcBit r).toNat
      = X * reflected 32 r.toNat + if r.toNat.testBit 0 then generator else 0 := by
  have hshift : reflected 32 (r.toNat >>> 1) + (if r.toNat.testBit 0 then X ^ 32 else 0)
      = X * reflected 32 r.toNat := reflected_shiftRight r.toNat_lt
  rw [toNat_crcBit, ← hshift]
  split
  · have htwice : (X ^ 32 + X ^ 32 : (ZMod 2)[X]) = 0 := CharTwo.add_self_eq_zero _
    calc reflected 32 (r.toNat >>> 1 ^^^ 0xEDB88320)
      _ = reflected 32 (r.toNat >>> 1) + reflected 32 0xEDB88320 + (X ^ 32 + X ^ 32) := by
        rw [reflected_xor, htwice, add_zero]
      _ = reflected 32 (r.toNat >>> 1) + X ^ 32 + generator := by
        rw [generator_eq]
        ring
  · rw [add_zero, add_zero]

/-- What a polynomial is modulo the generator. -/
noncomputable def residue : (ZMod 2)[X] →+* AdjoinRoot generator :=
  AdjoinRoot.mk generator

theorem residue_crcBit (r : UInt32) :
    residue (reflected 32 (crcBit r).toNat) = residue (X * reflected 32 r.toNat) := by
  have hnone : residue (if r.toNat.testBit 0 then generator else 0) = 0 := by
    split
    · exact AdjoinRoot.mk_self
    · exact map_zero residue
  rw [reflected_crcBit, map_add, hnone, add_zero]

theorem residue_iterate_crcBit (r : UInt32) (k : Nat) :
    residue (reflected 32 (crcBit^[k] r).toNat) = residue (X ^ k * reflected 32 r.toNat) := by
  induction k with
  | zero => rw [Function.iterate_zero_apply, pow_zero, one_mul]
  | succ k ih =>
    rw [Function.iterate_succ_apply', residue_crcBit, map_mul, ih, ← map_mul, pow_succ', mul_assoc]

/-- A byte goes into the register in front of eight steps. -/
theorem residue_crcByte (r : UInt32) (b : UInt8) :
    residue (reflected 32 (crcByte r b).toNat)
      = residue (X ^ 8 * reflected 32 r.toNat + X ^ 32 * reflected 8 b.toNat) := by
  have hbyte : reflected 32 b.toUInt32.toNat = X ^ 24 * reflected 8 b.toNat := by
    rw [UInt8.toNat_toUInt32]
    exact reflected_add b.toNat_lt 24
  have hsteps : crcByte r b = crcBit^[8] (r ^^^ b.toUInt32) := rfl
  rw [hsteps, residue_iterate_crcBit, UInt32.toNat_xor, reflected_xor, hbyte]
  congr 1
  ring

/-- The register after some bytes, as a remainder: what it was is moved up by their bits, and the
message comes in behind. The induction is over the bytes, with one multiplication for each bit of
them. -/
theorem residue_foldl_crcByte (r : UInt32) (bs : Bytes) :
    residue (reflected 32 (bs.foldl crcByte r).toNat)
      = residue (X ^ (8 * bs.length) * reflected 32 r.toNat + X ^ 32 * message bs) := by
  induction bs generalizing r with
  | nil => simp [message]
  | cons b bs ih =>
    have hpower : (X ^ (8 * (b :: bs).length) : (ZMod 2)[X]) = X ^ (8 * bs.length) * X ^ 8 := by
      rw [List.length_cons, Nat.mul_succ, pow_add]
    rw [List.foldl_cons, ih, map_add, map_mul, residue_crcByte, ← map_mul, ← map_add, message,
      hpower]
    refine congrArg residue ?_
    ring

/-! ## The two checksums -/

/-- A sum in a word of 16 bits is the sum of the bytes modulo what the word holds. -/
theorem foldl_add_toUInt16 (total : UInt16) (bs : Bytes) :
    (bs.foldl (fun sum b => sum + b.toUInt16) total).toNat
      = (total.toNat + (bs.map UInt8.toNat).sum) % 2 ^ 16 := by
  induction bs generalizing total with
  | nil => simp [Nat.mod_eq_of_lt total.toNat_lt]
  | cons b bs ih =>
    rw [List.foldl_cons, ih, UInt16.toNat_add, UInt8.toNat_toUInt16, List.map_cons, List.sum_cons]
    omega

/-- The sum of the bytes, in a word of 16 bits. -/
theorem toNat_compute_sum16 (bs : Bytes) :
    (sum16.compute bs).toNat = (bs.map UInt8.toNat).sum % 2 ^ 16 := by
  have hsum := foldl_add_toUInt16 0 bs
  rw [UInt16.toNat_zero, Nat.zero_add] at hsum
  exact (UInt16.toNat_toUInt32 _).trans hsum

theorem reflected_ones (width : Nat) :
    reflected width (2 ^ width - 1) = ∑ i ∈ Finset.range width, X ^ i := by
  rw [← Finset.sum_range_reflect (fun i => (X ^ i : (ZMod 2)[X])) width, reflected]
  refine Finset.sum_congr rfl fun i hi => if_pos ?_
  rw [Nat.testBit_two_pow_sub_one, decide_eq_true_eq]
  exact Finset.mem_range.1 hi

/-- A register that starts with ones comes to the remainder, because it is smaller than the
generator and so is its own remainder. -/
theorem reflected_register (bs : Bytes) :
    reflected 32 (bs.foldl crcByte 0xFFFFFFFF).toNat = crcRemainder bs := by
  have hfold := residue_foldl_crcByte 0xFFFFFFFF bs
  generalize (bs.foldl crcByte 0xFFFFFFFF).toNat = register at *
  have hones : reflected 32 (0xFFFFFFFF : UInt32).toNat = ∑ i ∈ Finset.range 32, X ^ i :=
    reflected_ones 32
  have hdegree : (reflected 32 register).degree < generator.degree := by
    rw [degree_generator]
    exact degree_reflected_lt 32 register
  have hdvd := AdjoinRoot.mk_eq_mk.1 hfold
  rw [hones, add_comm] at hdvd
  calc reflected 32 register
    _ = reflected 32 register %ₘ generator :=
      ((modByMonic_eq_self_iff monic_generator).2 hdegree).symm
    _ = crcRemainder bs := modByMonic_eq_of_dvd_sub monic_generator hdvd

/-- The check of a message is the word whose complement is the remainder, the lowest bit with the
highest power. -/
theorem compute_crc32_eq_iff (bs : Bytes) (c : UInt32) :
    crc32.compute bs = c ↔ reflected 32 (~~~c).toNat = crcRemainder bs := by
  have hcompute : crc32.compute bs = ~~~(bs.foldl crcByte 0xFFFFFFFF) :=
    UInt32.xor_neg_one
  rw [hcompute, ← reflected_register]
  constructor
  · rintro rfl
    rw [UInt32.not_not]
  · intro h
    have hsame := UInt32.toNat_inj.1 (reflected_injective (~~~c).toNat_lt (UInt32.toNat_lt _) h)
    rw [← hsame, UInt32.not_not]

example : crc32.compute (Utf8.ofString "123456789") = 0xCBF43926 := by decide +kernel

end DeviceHttp.Checksum
