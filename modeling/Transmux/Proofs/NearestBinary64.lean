import Mathlib.Tactic.Positivity
import Transmux.Proofs.Binary64Values

/-! Rounding to a floating-point number: of all finite numbers, the one made of a quotient is the
nearest, with an even significand if two are, and no other number is. -/

namespace Transmux

namespace Decimal

variable {num den : Nat}

theorem abs_sub_div (n : Nat) (h : 0 < den) :
    |(n : ℚ) - num / den| = |(n * den : ℚ) - num| / den := by
  have hden : (0 : ℚ) < den := by exact_mod_cast h
  rw [← abs_of_pos hden, ← abs_div, abs_of_pos hden, sub_div, mul_div_cancel_right₀ _ hden.ne']

theorem abs_roundDiv_sub_le (num : Nat) (h : 0 < den) :
    |(roundDiv num den : ℚ) - num / den| ≤ 1 / 2 := by
  have hden : (0 : ℚ) < den := by exact_mod_cast h
  obtain ⟨hlow, hhigh⟩ := roundDiv_near num den h
  have hlow' : 2 * (num : ℚ) ≤ 2 * (roundDiv num den * den) + den := by exact_mod_cast hlow
  have hhigh' : 2 * (roundDiv num den * den : ℚ) ≤ 2 * num + den := by exact_mod_cast hhigh
  rw [abs_sub_div _ h, div_le_iff₀ hden, abs_le]
  constructor <;> linarith

theorem even_of_abs_roundDiv_sub (num : Nat) (h : 0 < den)
    (htie : |(roundDiv num den : ℚ) - num / den| = 1 / 2) : roundDiv num den % 2 = 0 := by
  have hden : (0 : ℚ) < den := by exact_mod_cast h
  rw [abs_sub_div _ h, div_eq_iff hden.ne'] at htie
  refine even_roundDiv h ?_
  rcases abs_cases ((roundDiv num den * den : ℚ) - num) with ⟨habs, -⟩ | ⟨habs, -⟩
  · have hover : 2 * (roundDiv num den * den : ℚ) = 2 * num + den := by linarith
    exact .inr (by exact_mod_cast hover)
  · have hunder : 2 * (num : ℚ) = 2 * (roundDiv num den * den) + den := by linarith
    exact .inl (by exact_mod_cast hunder)

end Decimal

namespace Binary64

/-- A number that is not negative, with no finite number nearer to a quotient, and with an even
significand if another one is as near. -/
structure IsNearest (x : Binary64) (q : ℚ) : Prop where
  isNegative_eq : x.isNegative = false
  finite : x.IsFinite
  le_distance : ∀ y : Binary64, y.IsFinite → |x.magnitude - q| ≤ |y.magnitude - q|
  even_of_tie : ∀ y : Binary64, y.IsFinite → y.magnitude ≠ x.magnitude →
    |y.magnitude - q| = |x.magnitude - q| → x.significand % 2 = 0

section
variable {x y : Binary64} {q : ℚ}

/-- Next to an even significand there is an odd one. -/
theorem exists_succ (hx : x.IsFinite) (heven : x.significand % 2 = 0) :
    ∃ z : Binary64, z.IsFinite ∧ z.magnitude = (x.significand + 1) * ulp x.exponent := by
  have hpos := x.one_le_exponent
  have hexponent := exponent_lt hx
  have hlt := x.significand_lt
  have hsucc : x.exponent - 1 + 1 = x.exponent := by omega
  have hleast := x.exponent_eq_one_or
  have h : Assembled _ (x.exponent - 1) (x.significand + 1) :=
    assembled (by omega) (by omega) (by omega)
  have hmagnitude := h.magnitude_eq
  rw [hsucc] at hmagnitude
  push_cast at hmagnitude
  exact ⟨_, h.finite, hmagnitude⟩

theorem succ_lt_magnitude (hx : x.significand % 2 = 0) (hy : y.significand % 2 = 0)
    (h : x.magnitude < y.magnitude) :
    (x.significand + 1) * ulp x.exponent < y.magnitude := by
  have hu := ulp_pos x.exponent
  have hmultiple := mul_ulp_of_le y.significand (exponent_mono h.le)
  have heven : y.significand * 2 ^ (y.exponent - x.exponent) % 2 = 0 := by
    rw [Nat.mul_mod, hy, Nat.zero_mul]
  rw [magnitude, magnitude, hmultiple] at h
  rw [magnitude, hmultiple]
  generalize y.significand * 2 ^ (y.exponent - x.exponent) = k at h heven ⊢
  have hk : x.significand < k := by exact_mod_cast lt_of_mul_lt_mul_right h hu.le
  have hk' : (x.significand : ℚ) + 1 < k := by exact_mod_cast (by omega : x.significand + 1 < k)
  exact mul_lt_mul_of_pos_right hk' hu

/-- Of two numbers nearest to a quotient, neither is smaller: between even significands there is an
odd one that would be nearer. -/
theorem IsNearest.le_magnitude (hx : x.IsNearest q) (hy : y.IsNearest q) :
    y.magnitude ≤ x.magnitude := by
  by_contra hlt
  have hlt := not_le.1 hlt
  have hdistance := le_antisymm (hx.le_distance y hy.finite) (hy.le_distance x hx.finite)
  have hxeven := hx.even_of_tie y hy.finite hlt.ne' hdistance.symm
  have hyeven := hy.even_of_tie x hx.finite hlt.ne hdistance
  obtain ⟨z, hz, hmagnitude⟩ := exists_succ hx.finite hxeven
  have habove : x.magnitude < z.magnitude := by
    rw [hmagnitude, magnitude]
    exact mul_lt_mul_of_pos_right (lt_add_one _) (ulp_pos _)
  have hbelow : z.magnitude < y.magnitude := hmagnitude ▸ succ_lt_magnitude hxeven hyeven hlt
  have hmiddle : q = (x.magnitude + y.magnitude) / 2 := by
    rcases abs_eq_abs.1 hdistance with h | h <;> linarith
  have hnearer := hx.le_distance z hz
  rw [abs_of_nonpos (by linarith : x.magnitude - q ≤ 0)] at hnearer
  rcases le_abs.1 hnearer with h | h <;> linarith

theorem IsNearest.eq (hx : x.IsNearest q) (hy : y.IsNearest q) : x = y :=
  eq_of_magnitude_eq hx.isNegative_eq hy.isNegative_eq
    (le_antisymm (hy.le_magnitude hx) (hx.le_magnitude hy))

end

/-- A significand and an exponent that a quotient rounds to. -/
structure Rounds (e m : Nat) (q : ℚ) : Prop where
  one_le : 1 ≤ e
  le_of_ne : e ≠ 1 → 2 ^ 52 * ulp e ≤ q
  lt : q < 2 ^ 53 * ulp e
  near : |m * ulp e - q| ≤ ulp e / 2
  even_of_tie : |m * ulp e - q| = ulp e / 2 → m % 2 = 0

variable {e m : Nat} {q : ℚ}

theorem Rounds.le_two_pow (h : Rounds e m q) : m ≤ 2 ^ 53 := by
  have hu := ulp_pos e
  have hlt := h.lt
  have hnear := (abs_le.1 h.near).2
  by_contra hm
  have hm' : (2 : ℚ) ^ 53 + 1 ≤ m := by exact_mod_cast (by omega : 2 ^ 53 + 1 ≤ m)
  have hmul : (2 ^ 53 + 1) * ulp e ≤ m * ulp e := mul_le_mul_of_nonneg_right hm' hu.le
  linarith

theorem Rounds.two_pow_le (h : Rounds e m q) : e = 1 ∨ 2 ^ 52 ≤ m := by
  refine or_iff_not_imp_left.2 fun he => ?_
  have hu := ulp_pos e
  have hle := h.le_of_ne he
  have hnear := (abs_le.1 h.near).1
  by_contra hm
  have hm' : (m : ℚ) + 1 ≤ 2 ^ 52 := by exact_mod_cast (by omega : m + 1 ≤ 2 ^ 52)
  have hmul : (m + 1) * ulp e ≤ 2 ^ 52 * ulp e := mul_le_mul_of_nonneg_right hm' hu.le
  linarith

/-- No multiple of the unit is nearer, and one as near leaves an even significand. -/
theorem Rounds.le_multiple (h : Rounds e m q) (k : Nat) :
    |m * ulp e - q| ≤ |k * ulp e - q|
      ∧ (k ≠ m → |k * ulp e - q| = |m * ulp e - q| → m % 2 = 0) := by
  rcases eq_or_ne k m with rfl | hk
  · exact ⟨le_refl _, fun hne => absurd rfl hne⟩
  have hapart : ulp e ≤ |k * ulp e - m * ulp e| := by
    have hone : (1 : ℚ) ≤ |(k : ℚ) - m| := by
      have hint : (1 : ℤ) ≤ |(k : ℤ) - m| := Int.one_le_abs (by omega)
      exact_mod_cast hint
    rw [← sub_mul, abs_mul, abs_of_pos (ulp_pos e)]
    exact le_mul_of_one_le_left (ulp_pos e).le hone
  have htriangle := abs_sub_le (k * ulp e) q (m * ulp e)
  have hswap := abs_sub_comm q (m * ulp e)
  have hnear := h.near
  refine ⟨by linarith, fun _ htie => h.even_of_tie ?_⟩
  linarith

theorem Rounds.le_distance (h : Rounds e m q) {e' m' : Nat} (he' : 1 ≤ e') (hm' : m' < 2 ^ 53) :
    |m * ulp e - q| ≤ |m' * ulp e' - q|
      ∧ (m' * ulp e' ≠ m * ulp e → |m' * ulp e' - q| = |m * ulp e - q| → m % 2 = 0) := by
  rcases Nat.lt_or_ge e' e with hlt | hge
  · -- the least number of 53 bits at the exponent lies between this one and the quotient
    have hleast := h.le_of_ne (by omega)
    have hbelow : m' * ulp e' < 2 ^ 52 * ulp e := mul_ulp_lt hm' hlt
    have hgrid := (h.le_multiple (2 ^ 52)).1
    rw [Nat.cast_pow, Nat.cast_ofNat, abs_of_nonpos (sub_nonpos.2 hleast)] at hgrid
    have hfar : |m' * ulp e' - q| = q - m' * ulp e' := by
      rw [abs_of_nonpos (by linarith), neg_sub]
    refine ⟨by linarith, fun _ htie => ?_⟩
    linarith
  · obtain ⟨hle, htie⟩ := h.le_multiple (m' * 2 ^ (e' - e))
    rw [mul_ulp_of_le m' hge]
    refine ⟨hle, fun hne => htie fun heq => hne ?_⟩
    rw [heq]

theorem Rounds.exponent_lt (h : Rounds e m q) (hq : q < 2 ^ 1023) : e - 1 < 2045 := by
  by_contra hlarge
  have hleast := h.le_of_ne (by omega)
  have hpow : (2 : ℚ) ^ (1023 : ℤ) ≤ 2 ^ ((52 : Nat) + (e : ℤ) - 1075) :=
    zpow_le_zpow_right₀ (by norm_num) (by omega)
  rw [← two_pow_mul_ulp, zpow_ofNat] at hpow
  exact absurd (hpow.trans hleast) (not_le.2 hq)

theorem Rounds.assembled (h : Rounds e m q) (hq : q < 2 ^ 1023) :
    (assemble false (e - 1) m).Assembled (e - 1) m := by
  have he := h.exponent_lt hq
  have hm := h.le_two_pow
  have hleast : e - 1 = 0 ∨ 2 ^ 52 ≤ m := h.two_pow_le.imp_left fun he => by omega
  exact Binary64.assembled (by omega) hm hleast

theorem Rounds.magnitude_eq (h : Rounds e m q) (hq : q < 2 ^ 1023) :
    (assemble false (e - 1) m).magnitude = m * ulp e := by
  rw [(h.assembled hq).magnitude_eq, Nat.sub_add_cancel h.one_le]

theorem Rounds.isNearest (h : Rounds e m q) (hq : q < 2 ^ 1023) :
    (assemble false (e - 1) m).IsNearest q := by
  have hassembled := h.assembled hq
  refine ⟨hassembled.isNegative_eq, hassembled.finite, fun y _ => ?_, fun y _ hne htie => ?_⟩
  · rw [h.magnitude_eq hq]
    exact (h.le_distance y.one_le_exponent y.significand_lt).1
  · rw [h.magnitude_eq hq] at hne htie
    rw [hassembled.parity_eq]
    exact (h.le_distance y.one_le_exponent y.significand_lt).2 hne htie

/-! What is assembled from a quotient. -/

variable {num den : Nat}

theorem div_log2_bounds (hnum : 0 < num) (hden : 0 < den) :
    (2 : ℚ) ^ ((num.log2 : ℤ) - den.log2 - 1) < num / den
      ∧ (num : ℚ) / den < 2 ^ ((num.log2 : ℤ) - den.log2 + 1) := by
  have hpos : (0 : ℚ) < den := by exact_mod_cast hden
  have hpow (n : Nat) : (0 : ℚ) < 2 ^ n := by positivity
  have hlow : (2 : ℚ) ^ num.log2 ≤ num := by exact_mod_cast Nat.log2_self_le hnum.ne'
  have hhigh : (num : ℚ) < 2 ^ (num.log2 + 1) := by exact_mod_cast Nat.lt_log2_self
  have hlow' : (2 : ℚ) ^ den.log2 ≤ den := by exact_mod_cast Nat.log2_self_le hden.ne'
  have hhigh' : (den : ℚ) < 2 ^ (den.log2 + 1) := by exact_mod_cast Nat.lt_log2_self
  have hbelow : (num.log2 : ℤ) - den.log2 - 1 = num.log2 - (den.log2 + 1 : Nat) := by omega
  have habove : (num.log2 : ℤ) - den.log2 + 1 = (num.log2 + 1 : Nat) - den.log2 := by omega
  rw [hbelow, habove, zpow_sub₀ (by norm_num), zpow_sub₀ (by norm_num)]
  simp only [zpow_natCast]
  refine ⟨?_, ?_⟩
  · calc (2 : ℚ) ^ num.log2 / 2 ^ (den.log2 + 1)
        < 2 ^ num.log2 / den := div_lt_div_of_pos_left (hpow _) hpos hhigh'
      _ ≤ num / den := div_le_div_of_nonneg_right hlow hpos.le
  · calc (num : ℚ) / den < 2 ^ (num.log2 + 1) / den := div_lt_div_of_pos_right hhigh hpos
      _ ≤ 2 ^ (num.log2 + 1) / 2 ^ den.log2 := div_le_div_of_nonneg_left (hpow _).le (hpow _) hlow'

theorem shiftLeft_pos (hden : 0 < den) (n : Nat) : 0 < den <<< n := by
  rw [Nat.shiftLeft_eq]
  positivity

theorem div_shiftLeft_mul_ulp (num den e : Nat) :
    ((num <<< (1075 - e) : Nat) : ℚ) / (den <<< (e - 1075) : Nat) * ulp e = num / den := by
  have hsum : ((1075 - e : Nat) : ℤ) - (e - 1075 : Nat) + ((e : ℤ) - 1075) = 0 := by omega
  rw [shiftLeft_div_shiftLeft, ulp, mul_assoc, ← zpow_add₀ (by norm_num), hsum, zpow_zero, mul_one]

/-- What `exponentOf` compares tells whether a quotient has 53 bits at an exponent. -/
theorem shiftLeft_lt_iff (num : Nat) (hden : 0 < den) (e : Nat) :
    num <<< (1075 - e) < den <<< (52 + (e - 1075)) ↔ (num : ℚ) / den < 2 ^ 52 * ulp e := by
  have hpos : (0 : ℚ) < (den <<< (e - 1075) : Nat) := by exact_mod_cast shiftLeft_pos hden _
  have hshift : den <<< (52 + (e - 1075)) = 2 ^ 52 * den <<< (e - 1075) := by
    rw [Nat.shiftLeft_eq, Nat.shiftLeft_eq, Nat.pow_add]
    ring
  rw [← div_shiftLeft_mul_ulp num den e, mul_lt_mul_iff_left₀ (ulp_pos e), div_lt_iff₀ hpos, hshift]
  exact_mod_cast Iff.rfl

theorem exponentOf_eq (num : Nat) (hden : 0 < den) :
    exponentOf num den = if (num : ℚ) / den < 2 ^ 52 * ulp (num.log2 + 1023 - den.log2)
      then num.log2 + 1023 - den.log2 - 1 else num.log2 + 1023 - den.log2 := by
  simp only [exponentOf, shiftLeft_lt_iff num hden]

/-- At the exponent that is taken, a quotient has 53 bits, or fewer if there is none lower. -/
theorem exponentOf_bounds (hnum : 0 < num) (hden : 0 < den) :
    (max 1 (exponentOf num den) ≠ 1 → 2 ^ 52 * ulp (max 1 (exponentOf num den)) ≤ num / den)
      ∧ (num : ℚ) / den < 2 ^ 53 * ulp (max 1 (exponentOf num den)) := by
  obtain ⟨hlow, hhigh⟩ := div_log2_bounds hnum hden
  rw [exponentOf_eq num hden]
  generalize hestimate : num.log2 + 1023 - den.log2 = e
  have habove : (num : ℚ) / den < 2 ^ 53 * ulp e := by
    rw [two_pow_mul_ulp]
    exact hhigh.trans_le (zpow_le_zpow_right₀ (by norm_num) (by omega))
  split_ifs with hshort
  · rcases Nat.lt_or_ge e 2 with hleast | hlarge
    · have hmax : max 1 (e - 1) = 1 := by omega
      have hmono : 2 ^ 52 * ulp e ≤ 2 ^ 53 * ulp 1 := by
        rw [two_pow_mul_ulp, two_pow_mul_ulp]
        exact zpow_le_zpow_right₀ (by norm_num) (by omega)
      rw [hmax]
      exact ⟨fun h => absurd rfl h, hshort.trans_le hmono⟩
    · have hmax : max 1 (e - 1) = e - 1 := by omega
      have hsucc : e - 1 + 1 = e := by omega
      rw [hmax, ← two_pow_mul_ulp_succ, hsucc, two_pow_mul_ulp]
      exact ⟨fun _ => (zpow_le_zpow_right₀ (by norm_num) (by omega)).trans hlow.le, hshort⟩
  · rcases Nat.eq_zero_or_pos e with rfl | hpos
    · have hmono : ulp 0 ≤ ulp 1 := zpow_le_zpow_right₀ (by norm_num) (by omega)
      refine ⟨fun h => absurd rfl h, habove.trans_le ?_⟩
      exact mul_le_mul_of_nonneg_left hmono (by norm_num)
    · have hmax : max 1 e = e := by omega
      rw [hmax]
      exact ⟨fun _ => not_lt.1 hshort, habove⟩

theorem rounds_roundDiv {e : Nat} (hden : 0 < den) (hpos : 1 ≤ e)
    (hleast : e ≠ 1 → 2 ^ 52 * ulp e ≤ num / den) (hlt : (num : ℚ) / den < 2 ^ 53 * ulp e) :
    Rounds e (Decimal.roundDiv (num <<< (1075 - e)) (den <<< (e - 1075))) (num / den) := by
  have hu := ulp_pos e
  have hshifted := shiftLeft_pos hden (e - 1075)
  have hnear := Decimal.abs_roundDiv_sub_le (num <<< (1075 - e)) hshifted
  have heven := Decimal.even_of_abs_roundDiv_sub (num <<< (1075 - e)) hshifted
  generalize Decimal.roundDiv (num <<< (1075 - e)) (den <<< (e - 1075)) = m at hnear heven ⊢
  have hdistance : |m * ulp e - num / den|
      = |(m : ℚ) - (num <<< (1075 - e) : Nat) / (den <<< (e - 1075) : Nat)| * ulp e := by
    rw [← div_shiftLeft_mul_ulp num den e, ← sub_mul, abs_mul, abs_of_pos hu]
  have hhalf : ulp e / 2 = 1 / 2 * ulp e := by ring
  refine ⟨hpos, hleast, hlt, ?_, fun htie => heven ?_⟩
  · rw [hdistance, hhalf]
    exact mul_le_mul_of_nonneg_right hnear hu.le
  · rw [hdistance, hhalf] at htie
    exact mul_right_cancel₀ hu.ne' htie

theorem ofRatio_eq (num : Nat) (hden : 0 < den) (hq : (num : ℚ) / den < 2 ^ 1023) :
    ∃ e m, Rounds e m (num / den) ∧ ofRatio num den = assemble false (e - 1) m := by
  rcases Nat.eq_zero_or_pos num with rfl | hnum
  · have hu := ulp_pos 1
    have hrounds : Rounds 1 0 ((0 : Nat) / den) := by
      refine ⟨le_refl 1, fun h => absurd rfl h, ?_, ?_, fun _ => rfl⟩
      · simpa using hu
      · simpa using (half_pos hu).le
    exact ⟨1, 0, hrounds, if_pos rfl⟩
  · obtain ⟨hleast, hlt⟩ := exponentOf_bounds hnum hden
    have hrounds := rounds_roundDiv hden (Nat.le_max_left 1 (exponentOf num den)) hleast hlt
    rw [ofRatio, if_neg hnum.ne']
    simp only
    generalize max 1 (exponentOf num den) = e at hrounds ⊢
    generalize Decimal.roundDiv (num <<< (1075 - e)) (den <<< (e - 1075)) = m at hrounds ⊢
    have hlarge : ¬ 2046 < e := by
      have he := hrounds.exponent_lt hq
      omega
    refine ⟨e, m, hrounds, ?_⟩
    rw [if_neg hlarge]
    split_ifs with hsmall
    · obtain rfl : e = 1 := hrounds.two_pow_le.resolve_right (not_le.2 hsmall)
      rfl
    · rfl

theorem ofRatio_isNearest (num : Nat) (hden : 0 < den) (hq : (num : ℚ) / den < 2 ^ 1023) :
    (ofRatio num den).IsNearest (num / den) := by
  obtain ⟨e, m, hrounds, heq⟩ := ofRatio_eq num hden hq
  rw [heq]
  exact hrounds.isNearest hq

theorem cast_lt_two_pow {n : Nat} (h : n < 2 ^ 53) : (n : ℚ) < 2 ^ 1023 := by
  calc (n : ℚ) < 2 ^ 53 := by exact_mod_cast h
    _ ≤ 2 ^ 1023 := pow_le_pow_right₀ (by norm_num) (by norm_num)

/-- A whole number of at most 53 bits is not rounded. -/
theorem magnitude_ofRatio_one {n : Nat} (h : n < 2 ^ 53) : (ofRatio n 1).magnitude = n := by
  have hq : (n : ℚ) / (1 : Nat) < 2 ^ 1023 := by
    rw [Nat.cast_one, div_one]
    exact cast_lt_two_pow h
  obtain ⟨e, m, hrounds, heq⟩ := ofRatio_eq n Nat.one_pos hq
  have hunit : ulp 1075 = 1 := by
    rw [ulp]
    norm_num
  have hle := (hrounds.le_distance (by norm_num : 1 ≤ 1075) h).1
  rw [hunit, mul_one, Nat.cast_one, div_one, sub_self, abs_zero] at hle
  rw [heq, hrounds.magnitude_eq hq]
  exact sub_eq_zero.1 (abs_nonpos_iff.1 hle)

end Binary64

end Transmux
