import Mathlib.Algebra.Order.Field.Basic
import Mathlib.Algebra.Order.Field.Power
import Mathlib.Algebra.Order.Field.Rat
import Mathlib.Tactic.Linarith
import Mathlib.Tactic.NormNum
import Mathlib.Tactic.Ring
import Transmux.Binary64

/-! The values of floating-point numbers: a whole significand times a power of two, which the bits
of a number tell and which tell the bits of a number that is not negative. -/

namespace Transmux.Binary64

/-- What one unit of a significand counts at an exponent. -/
def ulp (exponent : Nat) : ℚ :=
  2 ^ ((exponent : ℤ) - 1075)

theorem ulp_pos (e : Nat) : 0 < ulp e :=
  zpow_pos (by norm_num) _

theorem two_pow_mul_ulp (n e : Nat) : 2 ^ n * ulp e = 2 ^ ((n : ℤ) + e - 1075) := by
  rw [ulp, ← zpow_natCast, ← zpow_add₀ (by norm_num)]
  congr 1
  omega

theorem two_pow_mul_ulp_succ (e : Nat) : 2 ^ 52 * ulp (e + 1) = 2 ^ 53 * ulp e := by
  rw [two_pow_mul_ulp, two_pow_mul_ulp]
  congr 1
  omega

theorem mul_ulp_of_le {e e' : Nat} (m : Nat) (h : e ≤ e') :
    m * ulp e' = ((m * 2 ^ (e' - e) : Nat) : ℚ) * ulp e := by
  have hunit : ulp e' = 2 ^ (e' - e) * ulp e := by
    rw [two_pow_mul_ulp, ulp]
    congr 1
    omega
  rw [hunit]
  push_cast
  ring

/-- A number of fewer than 54 bits is below all numbers of 53 bits at a larger exponent. -/
theorem mul_ulp_lt {e e' m : Nat} (hm : m < 2 ^ 53) (h : e < e') :
    m * ulp e < 2 ^ 52 * ulp e' := by
  have hm' : (m : ℚ) < 2 ^ 53 := by exact_mod_cast hm
  calc m * ulp e < 2 ^ 53 * ulp e := mul_lt_mul_of_pos_right hm' (ulp_pos e)
    _ ≤ 2 ^ 52 * ulp e' := by
      rw [two_pow_mul_ulp, two_pow_mul_ulp]
      exact zpow_le_zpow_right₀ (by norm_num) (by omega)

/-- The value of a finite number but for its sign. -/
def magnitude (x : Binary64) : ℚ :=
  x.significand * ulp x.exponent

def IsFinite (x : Binary64) : Prop :=
  x.biasedExponent < 2047

theorem shiftLeft_div_shiftLeft (a b s t : Nat) :
    ((a <<< s : Nat) : ℚ) / (b <<< t : Nat) = a / b * 2 ^ ((s : ℤ) - t) := by
  rw [Nat.shiftLeft_eq, Nat.shiftLeft_eq, zpow_sub₀ (by norm_num), zpow_natCast, zpow_natCast]
  push_cast
  rw [mul_div_mul_comm]

/-- Of the two shifts that scale by an exponent, one is by nothing. -/
theorem shift_sub_shift (e : Nat) :
    ((e - 1075 : Nat) : ℤ) - (1075 - e : Nat) = (e : ℤ) - 1075 := by
  omega

theorem ratio_eq (x : Binary64) : (x.ratio.1 : ℚ) / x.ratio.2 = x.magnitude := by
  have hscaled := shiftLeft_div_shiftLeft x.significand 1 (x.exponent - 1075) (1075 - x.exponent)
  rw [shift_sub_shift, Nat.cast_one, div_one] at hscaled
  exact hscaled

section
variable {x y : Binary64}

theorem fraction_lt (x : Binary64) : x.fraction < 2 ^ 52 :=
  Nat.mod_lt _ (by decide)

theorem significand_eq (x : Binary64) :
    x.significand = if x.biasedExponent = 0 then x.fraction else 2 ^ 52 + x.fraction :=
  rfl

theorem significand_lt (x : Binary64) : x.significand < 2 ^ 53 := by
  have hfraction := x.fraction_lt
  rw [significand_eq]
  split <;> omega

theorem one_le_exponent (x : Binary64) : 1 ≤ x.exponent :=
  Nat.le_max_left ..

theorem exponent_lt (h : x.IsFinite) : x.exponent < 2047 :=
  Nat.max_lt.2 ⟨by decide, h⟩

/-- Only at the lowest exponent can the top bit of a significand be missing. -/
theorem exponent_eq_one_or (x : Binary64) : x.exponent = 1 ∨ 2 ^ 52 ≤ x.significand := by
  rw [significand_eq, exponent]
  split_ifs with h
  · exact .inl (by rw [h]; rfl)
  · exact .inr (Nat.le_add_right ..)

theorem exponent_mono (h : x.magnitude ≤ y.magnitude) : x.exponent ≤ y.exponent := by
  by_contra hlt
  have hpos := y.one_le_exponent
  have hleast : 2 ^ 52 ≤ x.significand := x.exponent_eq_one_or.resolve_left (by omega)
  have hleast' : (2 : ℚ) ^ 52 ≤ x.significand := by exact_mod_cast hleast
  have hbelow : y.magnitude < 2 ^ 52 * ulp x.exponent := mul_ulp_lt y.significand_lt (by omega)
  have habove : 2 ^ 52 * ulp x.exponent ≤ x.magnitude :=
    mul_le_mul_of_nonneg_right hleast' (ulp_pos _).le
  linarith

theorem toNat_bits (h : x.isNegative = false) :
    x.bits.toNat = (x.exponent - 1) * 2 ^ 52 + x.significand := by
  have hlow : x.bits.toNat / 2 ^ 63 = 0 := by
    have hlt := x.bits.toNat_lt
    have htop : x.bits.toNat / 2 ^ 63 ≠ 1 := by
      rw [← Nat.shiftRight_eq_div_pow]
      exact ne_of_beq_false h
    omega
  have hexponent : x.bits.toNat / 2 ^ 52 = x.biasedExponent := by
    rw [biasedExponent, Nat.shiftRight_eq_div_pow]
    omega
  have hfraction : x.bits.toNat % 2 ^ 52 = x.fraction := rfl
  have hsplit := Nat.div_add_mod x.bits.toNat (2 ^ 52)
  rw [hexponent, hfraction] at hsplit
  rw [significand_eq, exponent, ← hsplit]
  split_ifs with hzero
  · rw [hzero]
    omega
  · have hmax : max 1 x.biasedExponent = x.biasedExponent - 1 + 1 := by omega
    rw [hmax, Nat.add_sub_cancel]
    omega

theorem eq_of_magnitude_eq (hx : x.isNegative = false) (hy : y.isNegative = false)
    (h : x.magnitude = y.magnitude) : x = y := by
  have hexponent := Nat.le_antisymm (exponent_mono h.le) (exponent_mono h.ge)
  have hsignificand : (x.significand : ℚ) = y.significand := by
    rw [magnitude, magnitude, hexponent] at h
    exact mul_right_cancel₀ (ulp_pos _).ne' h
  have hsignificand' : x.significand = y.significand := by exact_mod_cast hsignificand
  have hbits : x.bits.toNat = y.bits.toNat := by
    rw [toNat_bits hx, toNat_bits hy, hexponent, hsignificand']
  exact congrArg mk (UInt64.toNat_inj.1 hbits)

theorem toNat_assemble {e f : Nat} (h : e * 2 ^ 52 + f < 2 ^ 63) :
    (assemble false e f).bits.toNat = e * 2 ^ 52 + f := by
  rw [assemble, if_neg Bool.false_ne_true, Nat.zero_add, Nat.shiftLeft_eq, UInt64.toNat_ofNat']
  exact Nat.mod_eq_of_lt (by omega)

theorem fields_of_bits {e f : Nat} (h : x.bits.toNat = e * 2 ^ 52 + f) (hf : f < 2 ^ 52)
    (he : e < 2048) : x.isNegative = false ∧ x.biasedExponent = e ∧ x.fraction = f := by
  refine ⟨?_, ?_, ?_⟩
  · have htop : x.bits.toNat / 2 ^ 63 = 0 := Nat.div_eq_of_lt (by omega)
    rw [isNegative, Nat.shiftRight_eq_div_pow, htop]
    rfl
  · have hhigh : x.bits.toNat / 2 ^ 52 = e := by omega
    rw [biasedExponent, Nat.shiftRight_eq_div_pow, hhigh, Nat.mod_eq_of_lt he]
  · change x.bits.toNat % 2 ^ 52 = f
    omega

end

/-- What a number is that was assembled from a significand with its top bit: that bit counts into
the exponent. -/
structure Assembled (x : Binary64) (e m : Nat) : Prop where
  isNegative_eq : x.isNegative = false
  finite : x.IsFinite
  magnitude_eq : x.magnitude = m * ulp (e + 1)
  parity_eq : x.significand % 2 = m % 2

theorem Assembled.of_bits {x : Binary64} {e m n f : Nat} (h : x.bits.toNat = n * 2 ^ 52 + f)
    (hf : f < 2 ^ 52) (hn : n < 2047)
    (hmagnitude : ((if n = 0 then f else 2 ^ 52 + f : Nat) : ℚ) * ulp (max 1 n) = m * ulp (e + 1))
    (hparity : (if n = 0 then f else 2 ^ 52 + f) % 2 = m % 2) : x.Assembled e m := by
  obtain ⟨hsign, hexponent, hfraction⟩ := fields_of_bits h hf (by omega)
  have hsignificand : x.significand = if n = 0 then f else 2 ^ 52 + f := by
    rw [significand_eq, hexponent, hfraction]
  refine ⟨hsign, ?_, ?_, ?_⟩
  · rwa [IsFinite, hexponent]
  · rwa [magnitude, hsignificand, exponent, hexponent]
  · rwa [hsignificand]

theorem assembled {e m : Nat} (hlt : e * 2 ^ 52 + m < 2047 * 2 ^ 52) (hm : m ≤ 2 ^ 53)
    (hleast : e = 0 ∨ 2 ^ 52 ≤ m) : (assemble false e m).Assembled e m := by
  have hbits : (assemble false e m).bits.toNat = e * 2 ^ 52 + m := toNat_assemble (by omega)
  rcases Nat.lt_or_ge m (2 ^ 52) with hsmall | hlarge
  · obtain rfl : e = 0 := hleast.resolve_right (by omega)
    exact .of_bits hbits hsmall (by decide) rfl rfl
  · rcases Nat.lt_or_ge m (2 ^ 53) with hshort | hlong
    · have hsplit : (assemble false e m).bits.toNat = (e + 1) * 2 ^ 52 + (m - 2 ^ 52) := by
        rw [hbits, Nat.add_mul]
        omega
      have hwhole : 2 ^ 52 + (m - 2 ^ 52) = m := by omega
      have hmax : max 1 (e + 1) = e + 1 := by omega
      refine .of_bits hsplit (by omega) (by omega) ?_ ?_
      · rw [if_neg (by omega), hwhole, hmax]
      · rw [if_neg (by omega), hwhole]
    · -- one bit more: the least significand of the next exponent
      obtain rfl : m = 2 ^ 53 := by omega
      have hsplit : (assemble false e (2 ^ 53)).bits.toNat = (e + 2) * 2 ^ 52 + 0 := by
        rw [hbits, Nat.add_mul]
        omega
      have hmax : max 1 (e + 2) = e + 2 := by omega
      refine .of_bits hsplit (by decide) (by omega) ?_ ?_
      · rw [if_neg (by omega), Nat.add_zero, hmax, Nat.cast_pow, Nat.cast_pow, Nat.cast_ofNat,
          two_pow_mul_ulp_succ]
      · rw [if_neg (by omega), Nat.add_zero]
        rfl

end Transmux.Binary64
