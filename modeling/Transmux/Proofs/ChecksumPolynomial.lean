import Mathlib.Algebra.Field.ZMod
import Mathlib.Algebra.Polynomial.Div
import Mathlib.Tactic.LinearCombination
import Transmux.Proofs.ChecksumRemainder

/-! The checksum in the polynomials over two elements: it is what is left of the bits of a byte
string, shifted up by 32, on division by the generator. Along the division the register and a
multiple of the generator make up the bits taken in so far. -/

namespace Transmux.Ogg.Checksum

open Polynomial

noncomputable section

/-- A bit as one of the two elements. -/
def scalar (b : Bool) : ZMod 2 :=
  if b then 1 else 0

theorem scalar_xor (a b : Bool) : scalar (a ^^ b) = scalar a + scalar b := by
  cases a <;> cases b <;> decide

theorem scalar_and (a b : Bool) : scalar (a && b) = scalar a * scalar b := by
  cases a <;> cases b <;> decide

theorem scalar_injective {a b : Bool} (h : scalar a = scalar b) : a = b := by
  revert a b
  decide

/-- Bits as coefficients, the first of them that of the highest power. -/
def bitsPolynomial : List Bool → (ZMod 2)[X]
  | [] => 0
  | b :: bs => C (scalar b) * X ^ bs.length + bitsPolynomial bs

/-- A remainder as a polynomial: bit `i` is the coefficient of the power `i`. -/
def wordPolynomial (r : UInt32) : (ZMod 2)[X] :=
  ∑ i ∈ Finset.range 32, C (scalar (bit r i)) * X ^ i

def generator : (ZMod 2)[X] :=
  X ^ 32 + wordPolynomial divisor

theorem coeff_wordPolynomial (r : UInt32) (i : Nat) :
    (wordPolynomial r).coeff i = scalar (bit r i) := by
  rw [wordPolynomial, finsetSum_coeff]
  by_cases hi : i < 32
  · rw [Finset.sum_eq_single i]
    · simp
    · intro j _ hj
      rw [coeff_C_mul_X_pow, if_neg (Ne.symm hj)]
    · intro hout
      exact absurd (Finset.mem_range.2 hi) hout
  · rw [bit_of_ge r (Nat.not_lt.1 hi)]
    refine Finset.sum_eq_zero fun j hj => ?_
    have hj := Finset.mem_range.1 hj
    rw [coeff_C_mul_X_pow, if_neg (by omega)]

theorem wordPolynomial_zero : wordPolynomial 0 = 0 := by
  ext i
  rw [coeff_wordPolynomial, bit_zero, coeff_zero]
  rfl

theorem wordPolynomial_injective {a b : UInt32} (h : wordPolynomial a = wordPolynomial b) :
    a = b := by
  apply eq_of_bit
  intro i _
  apply scalar_injective
  rw [← coeff_wordPolynomial, h, coeff_wordPolynomial]

theorem wordPolynomial_xor (a b : UInt32) :
    wordPolynomial (a ^^^ b) = wordPolynomial a + wordPolynomial b := by
  ext i
  rw [coeff_add, coeff_wordPolynomial, coeff_wordPolynomial, coeff_wordPolynomial, bit_xor,
    scalar_xor]

theorem wordPolynomial_atTop (b : Bool) : wordPolynomial (atTop b) = C (scalar b) * X ^ 31 := by
  ext i
  rw [coeff_wordPolynomial, bit_atTop, coeff_C_mul_X_pow]
  by_cases hi : i = 31
  · simp [hi]
  · simp [hi, scalar]

theorem degree_wordPolynomial_lt (r : UInt32) : (wordPolynomial r).degree < (32 : Nat) := by
  rw [degree_lt_iff_coeff_zero]
  intro i hi
  rw [coeff_wordPolynomial, bit_of_ge r hi]
  rfl

theorem monic_generator : generator.Monic :=
  monic_X_pow_add (degree_wordPolynomial_lt divisor)

theorem degree_generator : generator.degree = (32 : Nat) := by
  have hpow : (X ^ 32 : (ZMod 2)[X]).degree = (32 : Nat) := degree_X_pow 32
  rw [generator, degree_add_eq_left_of_degree_lt, hpow]
  rw [hpow]
  exact degree_wordPolynomial_lt divisor

theorem bit_taken (b : Bool) (i : Nat) : bit (taken b) i = (b && bit divisor i) := by
  cases b with
  | false => exact bit_zero i
  | true => exact (Bool.true_and _).symm

/-- A step multiplies by x and takes the generator off if that made the degree too high. -/
theorem wordPolynomial_step (r : UInt32) :
    wordPolynomial (step r) + C (scalar (bit r 31)) * generator = X * wordPolynomial r := by
  have hcancel : ∀ a : ZMod 2, a + a = 0 := by decide
  ext i
  rw [coeff_add, coeff_C_mul, generator, coeff_add, coeff_X_pow, coeff_wordPolynomial,
    coeff_wordPolynomial, step_eq, bit_xor, bit_shiftLeft r (by decide), bit_taken, scalar_xor,
    scalar_and, scalar_and]
  cases i with
  | zero =>
    rw [coeff_X_mul_zero]
    simp [scalar, hcancel]
  | succ i =>
    have hone : (1 : UInt32).toNat = 1 := rfl
    have hbit : scalar true = 1 := rfl
    have hnone : scalar false = 0 := rfl
    rw [coeff_X_mul, coeff_wordPolynomial, hone, Nat.add_sub_cancel]
    rcases Nat.lt_trichotomy (i + 1) 32 with hlow | htop | hhigh
    · rw [decide_eq_true (by omega), hbit, if_neg (by omega)]
      linear_combination hcancel (scalar (bit r 31) * scalar (bit divisor (i + 1)))
    · obtain rfl : i = 31 := Nat.succ.inj htop
      simp [scalar, bit_of_ge]
    · rw [decide_eq_false (by omega), hnone, if_neg (by omega), bit_of_ge r (by omega),
        bit_of_ge divisor (by omega), hnone]
      ring

/-- Taking in a bit brings down the next coefficient of the dividend. -/
theorem wordPolynomial_takeBit (r : UInt32) (b : Bool) :
    ∃ q, wordPolynomial (takeBit r b) + generator * q
      = X * wordPolynomial r + C (scalar b) * X ^ 32 := by
  have htake : takeBit r b = step (r ^^^ atTop b) := rfl
  have hstep := wordPolynomial_step (r ^^^ atTop b)
  rw [wordPolynomial_xor, wordPolynomial_atTop] at hstep
  refine ⟨C (scalar (bit (r ^^^ atTop b) 31)), ?_⟩
  rw [htake]
  linear_combination hstep

/-- What the register holds and a multiple of the generator make up the bits taken in. -/
theorem exists_quotient (bs : List Bool) (r : UInt32) :
    ∃ q, wordPolynomial (bs.foldl takeBit r) + generator * q
      = wordPolynomial r * X ^ bs.length + bitsPolynomial bs * X ^ 32 := by
  induction bs generalizing r with
  | nil => exact ⟨0, by simp [bitsPolynomial]⟩
  | cons b bs ih =>
    obtain ⟨first, hfirst⟩ := wordPolynomial_takeBit r b
    obtain ⟨rest, hrest⟩ := ih (takeBit r b)
    refine ⟨rest + first * X ^ bs.length, ?_⟩
    rw [List.foldl_cons, List.length_cons, bitsPolynomial]
    linear_combination hrest + X ^ bs.length * hfirst

theorem wordPolynomial_ofBits (bs : List Bool) :
    wordPolynomial (ofBits bs) = (bitsPolynomial bs * X ^ 32) %ₘ generator := by
  obtain ⟨q, hq⟩ := exists_quotient bs 0
  rw [wordPolynomial_zero, zero_mul, zero_add] at hq
  refine (div_modByMonic_unique q _ monic_generator ⟨hq, ?_⟩).2.symm
  rw [degree_generator]
  exact degree_wordPolynomial_lt _

end

theorem takeBit_xor (r s : UInt32) (a b : Bool) :
    takeBit (r ^^^ s) (a ^^ b) = takeBit r a ^^^ takeBit s b := by
  have htop : atTop (a ^^ b) = atTop a ^^^ atTop b := by
    revert a b
    decide
  have htake (r : UInt32) (b : Bool) : takeBit r b = step (r ^^^ atTop b) := rfl
  rw [htake, htake, htake, ← step_xor, htop]
  congr 1
  ac_rfl

theorem foldl_takeBit_xor {a b : List Bool} (h : a.length = b.length) (r s : UInt32) :
    (List.zipWith (· ^^ ·) a b).foldl takeBit (r ^^^ s)
      = a.foldl takeBit r ^^^ b.foldl takeBit s := by
  induction a generalizing b r s with
  | nil =>
    obtain rfl := List.length_eq_zero_iff.1 h.symm
    rfl
  | cons x a ih =>
    cases b with
    | nil => cases h
    | cons y b =>
      rw [List.zipWith_cons_cons, List.foldl_cons, takeBit_xor, ih (Nat.succ.inj h)]
      rfl

theorem bits_xor (a b : UInt8) : bits (a ^^^ b) = List.zipWith (· ^^ ·) (bits a) (bits b) := by
  simp [bits, List.zipWith_map, List.zipWith_self]

theorem bitsOf_xor {a b : Bytes} (h : a.length = b.length) :
    bitsOf (List.zipWith (· ^^^ ·) a b) = List.zipWith (· ^^ ·) (bitsOf a) (bitsOf b) := by
  induction a generalizing b with
  | nil => rfl
  | cons x a ih =>
    cases b with
    | nil => cases h
    | cons y b =>
      have hcons (z : UInt8) (bs : Bytes) : bitsOf (z :: bs) = bits z ++ bitsOf bs :=
        List.flatMap_cons
      have hlength : (bits x).length = (bits y).length := by rw [length_bits, length_bits]
      rw [List.zipWith_cons_cons, hcons, hcons, hcons, bits_xor, ih (Nat.succ.inj h),
        List.zipWith_append hlength]

theorem checksum_xor {a b : Bytes} (h : a.length = b.length) :
    checksum (List.zipWith (· ^^^ ·) a b) = checksum a ^^^ checksum b := by
  have hbits : (bitsOf a).length = (bitsOf b).length := by
    rw [length_bitsOf, length_bitsOf, h]
  rw [checksum_eq_ofBits, checksum_eq_ofBits, checksum_eq_ofBits, bitsOf_xor h]
  exact foldl_takeBit_xor hbits 0 0

/-- A number laid out most significant byte first has its bits in that order too. -/
theorem bitsOf_be (width n : Nat) :
    bitsOf (Bytes.be width n)
      = (List.range (8 * width)).map fun i => n.testBit (8 * width - 1 - i) := by
  induction width generalizing n with
  | zero => rfl
  | succ width ih =>
    have hfront : (List.range (8 * width)).map (fun i => (n / 256).testBit (8 * width - 1 - i))
        = (List.range (8 * width)).map fun i => n.testBit (8 * (width + 1) - 1 - i) := by
      refine List.map_congr_left fun i hi => ?_
      have hi := List.mem_range.1 hi
      have hplace : 8 * width - 1 - i + 8 = 8 * (width + 1) - 1 - i := by omega
      rw [← hplace, ← Nat.testBit_div_two_pow]
    have hlast : bitsOf [UInt8.ofNat n]
        = (List.range 8).map fun i => n.testBit (8 * (width + 1) - 1 - (8 * width + i)) := by
      rw [bitsOf, List.flatMap_singleton, bits]
      refine List.map_congr_left fun i hi => ?_
      have hi := List.mem_range.1 hi
      have hplace : 8 * (width + 1) - 1 - (8 * width + i) = 7 - i := by omega
      have hbyte : (UInt8.ofNat n).toNat = n % 2 ^ 8 := UInt8.toNat_ofNat'
      rw [hplace, hbyte, Nat.testBit_mod_two_pow, decide_eq_true (by omega), Bool.true_and]
    rw [Bytes.be, bitsOf_append, ih, hlast, hfront, Nat.mul_succ, List.range_add, List.map_append,
      List.map_map]
    rfl

theorem word_bitsOf_be (r : UInt32) : word (bitsOf (Bytes.be 4 r.toNat)) = r := by
  apply eq_of_bit
  intro i hi
  have hplace : 8 * 4 - 1 - (31 - i) = i := by omega
  rw [bit_word _ hi, bitsOf_be, List.getD_eq_getElem _ _ (by simp; omega), List.getElem_map,
    List.getElem_range, hplace]
  rfl

/-- A remainder taken in behind its own dividend leaves nothing. -/
theorem checksum_append_be (bs : Bytes) :
    checksum (bs ++ Bytes.be 4 (checksum bs).toNat) = 0 := by
  have hlength : (bitsOf (Bytes.be 4 (checksum bs).toNat)).length = 32 := by
    rw [length_bitsOf, Bytes.length_be]
  have hzero : steps 32 0 = 0 := by
    have hself := steps_xor 32 0 0
    rwa [UInt32.xor_self, UInt32.xor_self] at hself
  rw [checksum_eq_ofBits, bitsOf_append, ofBits, List.foldl_append, ← ofBits, ← checksum_eq_ofBits,
    foldl_takeBit (Nat.le_of_eq hlength), word_bitsOf_be, UInt32.xor_self, hlength, hzero]

/-- The checksum is the remainder of the polynomial division, which the register of the division
bit by bit computes. So it is linear, and a byte string with its checksum behind it leaves none. -/
theorem checksum_eq_remainder (bs : Bytes) :
    (∀ r, wordPolynomial r = (bitsPolynomial (bitsOf bs) * X ^ 32) %ₘ generator ↔ r = checksum bs)
      ∧ checksum bs = ofBits (bitsOf bs)
      ∧ (∀ other : Bytes, bs.length = other.length →
        checksum (List.zipWith (· ^^^ ·) bs other) = checksum bs ^^^ checksum other)
      ∧ checksum (bs ++ Bytes.be 4 (checksum bs).toNat) = 0 := by
  refine ⟨fun r => ?_, checksum_eq_ofBits bs, fun other => checksum_xor, checksum_append_be bs⟩
  rw [← wordPolynomial_ofBits, ← checksum_eq_ofBits]
  constructor
  · exact wordPolynomial_injective
  · rintro rfl
    rfl

/-- The digits from 1 to 9 as text. -/
def digits : Bytes :=
  [0x31, 0x32, 0x33, 0x34, 0x35, 0x36, 0x37, 0x38, 0x39]

theorem checksum_eq_remainder_digits :
    wordPolynomial 0x89A1897F = (bitsPolynomial (bitsOf digits) * X ^ 32) %ₘ generator
      ∧ checksum digits = ofBits (bitsOf digits)
      ∧ checksum (List.zipWith (· ^^^ ·) digits digits.reverse)
        = 0x89A1897F ^^^ checksum digits.reverse
      ∧ checksum (digits ++ [0x89, 0xA1, 0x89, 0x7F]) = 0 := by
  have hdigits : checksum digits = 0x89A1897F := by decide +kernel
  obtain ⟨hremainder, hregister, hlinear, hbehind⟩ := checksum_eq_remainder digits
  have hreverse := hlinear digits.reverse rfl
  rw [hdigits] at hreverse hbehind
  exact ⟨(hremainder _).2 hdigits.symm, hregister, hreverse, hbehind⟩

end Transmux.Ogg.Checksum
