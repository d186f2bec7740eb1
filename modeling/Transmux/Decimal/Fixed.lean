import Transmux.Binary64

/-! Decimals with two places after the point. -/

namespace Transmux.Decimal

/-- A number of hundredths with its point. -/
def hundredths (n : Nat) : String :=
  let part := toString (n % 100)
  toString (n / 100) ++ "." ++ (if part.length < 2 then "0" ++ part else part)

/-- The exact value of a finite number that is not negative, rounded to two places, a half to the
even neighbour. -/
def fixed (x : Binary64) : String :=
  let (num, den) := x.ratio
  hundredths (roundDiv (100 * num) den)

end Transmux.Decimal
