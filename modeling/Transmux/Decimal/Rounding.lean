/-! Powers of ten, and division to the nearest whole number, a half going to the even neighbour. -/

namespace Transmux.Decimal

/-- The power of ten with this exponent. -/
def tenTo (exponent : Nat) : Nat := Nat.pow 10 exponent

def roundDiv (num den : Nat) : Nat :=
  let q := num / den
  let r := num % den
  if 2 * r < den then q
  else if den < 2 * r then q + 1
  else q + q % 2

/-- The quotient is within half a unit of the result. -/
theorem roundDiv_near (num den : Nat) (h : 0 < den) :
    2 * num ≤ 2 * (roundDiv num den * den) + den ∧
      2 * (roundDiv num den * den) ≤ 2 * num + den := by
  have hd := Nat.div_add_mod num den
  have hr := Nat.mod_lt num h
  have hc : num / den * den = den * (num / den) := Nat.mul_comm ..
  unfold roundDiv
  simp only
  split
  · omega
  · split
    · rw [Nat.add_mul]; omega
    · have h2 : num / den % 2 < 2 := Nat.mod_lt _ (by omega)
      rcases Nat.lt_or_ge (num / den % 2) 1 with h0 | h1
      · rw [show num / den % 2 = 0 by omega, Nat.add_zero]; omega
      · rw [show num / den % 2 = 1 by omega, Nat.add_mul]; omega

/-- Halfway between two whole numbers the even one is taken. -/
theorem even_roundDiv {num den : Nat} (h : 0 < den)
    (htie : 2 * num = 2 * (roundDiv num den * den) + den
      ∨ 2 * (roundDiv num den * den) = 2 * num + den) : roundDiv num den % 2 = 0 := by
  have hd := Nat.div_add_mod num den
  have hr := Nat.mod_lt num h
  have hc : num / den * den = den * (num / den) := Nat.mul_comm ..
  revert htie
  unfold roundDiv
  simp only
  split
  · omega
  · split
    · rw [Nat.add_mul]; omega
    · omega

end Transmux.Decimal
