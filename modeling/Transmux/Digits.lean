/-! Numbers that digits spell. Where only small numbers count, reading stops at a bound, so that a
long row of digits costs no more than its length. -/

namespace Transmux.Digits

/-- The number that digits of a base spell, first digit first. -/
def value (base : Nat) (digits : List Nat) : Nat :=
  digits.foldl (fun n d => base * n + d) 0

/-- The number that digits of a base spell, if it is below a bound. -/
def below? (bound base : Nat) (digits : List Nat) : Option Nat :=
  digits.foldlM (fun n d => if base * n + d < bound then some (base * n + d) else none) 0

end Transmux.Digits
