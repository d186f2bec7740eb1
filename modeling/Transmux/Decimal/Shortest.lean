import Transmux.Binary64

/-! The shortest decimal that reads back as a given positive number, and its plain text. Of the
decimals with the fewest digits in the interval that rounds to the number, the nearest is taken. -/

namespace Transmux.Decimal

/-- The positive decimal `digits * 10 ^ exponent`. -/
structure Scaled where
  digits : Nat
  exponent : Int
deriving DecidableEq

/-- The quotients that round to a number, ends included or not, and the number itself, over a
common denominator. -/
structure Interval where
  low : Nat
  value : Nat
  high : Nat
  den : Nat
  closed : Bool
deriving DecidableEq

/-- The interval of a positive finite number. Below a power of two the gap is half as wide. -/
def Interval.of (x : Binary64) : Interval :=
  let m := x.significand
  let up := x.exponent - 1075
  let below := if x.fraction = 0 ∧ 1 < x.biasedExponent then 1 else 2
  ⟨(4 * m - below) <<< up, (4 * m) <<< up, (4 * m + 2) <<< up, 4 <<< (1075 - x.exponent),
    m % 2 == 0⟩

def Interval.contains (i : Interval) (num den : Nat) : Bool :=
  if i.closed then i.low * den ≤ num * i.den && num * i.den ≤ i.high * den
  else i.low * den < num * i.den && num * i.den < i.high * den

/-- The largest power of ten that is at most the quotient, as its exponent. -/
def magnitude (num den : Nat) : Int :=
  if den ≤ num then (Nat.toDigits 10 (num / den)).length - 1
  else -(Nat.toDigits 10 ((den - 1) / num)).length

/-- The two neighbours of the number among the multiples of `10 ^ exponent`, the nearer one first
and of two equally near ones the even one first. -/
def Interval.neighbours (i : Interval) (exponent : Int) : List Scaled :=
  let num := i.value * tenTo (-exponent).toNat
  let den := i.den * tenTo exponent.toNat
  let near := roundDiv num den
  let q := num / den
  [⟨near, exponent⟩, ⟨2 * q + 1 - near, exponent⟩]

def Interval.holds (i : Interval) (d : Scaled) : Bool :=
  i.contains (d.digits * tenTo d.exponent.toNat) (tenTo (-d.exponent).toNat)

/-- The decimal with the fewest digits that reads back, for a positive finite number. -/
def shortest (x : Binary64) : Scaled :=
  let i := Interval.of x
  let top := magnitude i.value i.den
  let grids := (List.range 17).map fun (n : Nat) => top - n
  ((grids.flatMap i.neighbours).find? i.holds).getD ⟨0, 0⟩

/-- Plain digits, with a point and at least one digit on either side of it. -/
def Scaled.text (d : Scaled) : String :=
  let whole := d.digits * tenTo d.exponent.toNat
  let places := (-d.exponent).toNat
  if places = 0 then toString whole ++ ".0"
  else
    let part := toString (whole % tenTo places)
    toString (whole / tenTo places) ++ "."
      ++ String.ofList (List.replicate (places - part.length) '0') ++ part

/-- The text of a finite number that is not negative. -/
def text (x : Binary64) : String :=
  if x.significand = 0 then "0.0" else (shortest x).text

end Transmux.Decimal
