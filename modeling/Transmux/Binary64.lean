import Transmux.Bytes
import Transmux.Decimal.Rounding

/-! Floating-point numbers of 64 bits, held as their bits and handled in whole-number arithmetic. -/

namespace Transmux

/-- One sign bit, eleven exponent bits and fifty-two fraction bits. -/
structure Binary64 where
  bits : UInt64
deriving DecidableEq

namespace Binary64

def isNegative (x : Binary64) : Bool :=
  x.bits.toNat >>> 63 == 1

def biasedExponent (x : Binary64) : Nat :=
  (x.bits.toNat >>> 52) % 2048

def fraction (x : Binary64) : Nat :=
  x.bits.toNat % (1 <<< 52)

def isNaN (x : Binary64) : Bool :=
  x.biasedExponent == 2047 && x.fraction != 0

def assemble (negative : Bool) (biasedExponent fraction : Nat) : Binary64 :=
  ⟨UInt64.ofNat ((if negative then 1 <<< 63 else 0) + biasedExponent <<< 52 + fraction)⟩

/-- The number with the value of a 32-bit one, given by its bits. -/
def ofBinary32 (bits : Nat) : Binary64 :=
  let negative := (bits >>> 31) % 2 == 1
  let e := (bits >>> 23) % 256
  let f := bits % (1 <<< 23)
  if e = 255 then assemble negative 2047 (f <<< 29)
  else if e = 0 then
    if f = 0 then assemble negative 0 0
    else assemble negative (f.log2 + 874) ((f - 1 <<< f.log2) <<< (52 - f.log2))
  else assemble negative (e + 896) (f <<< 29)

/-- A number written in four or in eight bytes, most significant first. -/
def ofBytes? (bytes : Bytes) : Option Binary64 :=
  if bytes.length = 4 then some (ofBinary32 (Bytes.ofBe bytes))
  else if bytes.length = 8 then some ⟨UInt64.ofNat (Bytes.ofBe bytes)⟩
  else none

/-- A finite magnitude is its significand times two to the power of `exponent - 1075`. -/
def significand (x : Binary64) : Nat :=
  if x.biasedExponent = 0 then x.fraction else 1 <<< 52 + x.fraction

def exponent (x : Binary64) : Nat :=
  max 1 x.biasedExponent

/-- A finite magnitude as a quotient. -/
def ratio (x : Binary64) : Nat × Nat :=
  (x.significand <<< (x.exponent - 1075), 1 <<< (1075 - x.exponent))

/-- The whole part, kept within 0 and `limit`; what is not a number counts as 0. -/
def clampWhole (limit : Nat) (x : Binary64) : Nat :=
  if x.isNaN || x.isNegative then 0
  else if x.biasedExponent = 2047 then limit
  else
    let (num, den) := x.ratio
    min (num / den) limit

/-- Power of two by which a significand for `num / den` falls short of 53 bits, offset by 1075. -/
def exponentOf (num den : Nat) : Nat :=
  let e := num.log2 + 1023 - den.log2
  if num <<< (1075 - e) < den <<< (52 + (e - 1075)) then e - 1 else e

/-- The number nearest to a quotient, an even significand winning a tie. -/
def ofRatio (num den : Nat) : Binary64 :=
  if num = 0 then assemble false 0 0
  else
    let e := max 1 (exponentOf num den)
    let m := Decimal.roundDiv (num <<< (1075 - e)) (den <<< (e - 1075))
    if m < 1 <<< 52 then assemble false 0 m
    else if 2046 < e then assemble false 2047 0
    else assemble false (e - 1) m

end Binary64

end Transmux
