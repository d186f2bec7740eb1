import Transmux.Decimal.Rounding
import Transmux.Digits

/-! What a plain YAML scalar stands for: nothing, a truth value, a number, or its own text. -/

namespace Transmux.Yaml

/-- What a plain scalar reads as. -/
inductive ScalarKind where
  | null
  | flag (b : Bool)
  | whole
  | real
  | text
deriving DecidableEq

namespace Scalar

def isNull (s : String) : Bool :=
  s = "" || s = "~" || s = "null" || s = "Null" || s = "NULL"

def flag? (s : String) : Option Bool :=
  if s = "true" ∨ s = "True" ∨ s = "TRUE" then some true
  else if s = "false" ∨ s = "False" ∨ s = "FALSE" then some false
  else none

def digitValue (c : Char) : Nat :=
  if '0' ≤ c ∧ c ≤ '9' then c.toNat - 48
  else if 'a' ≤ c ∧ c ≤ 'z' then c.toNat - 87
  else if 'A' ≤ c ∧ c ≤ 'Z' then c.toNat - 55
  else 36

/-- Digits of a base, at least one of them. -/
def digits? (base : Nat) (cs : List Char) : Option (List Nat) :=
  if cs.isEmpty || cs.any fun c => base ≤ digitValue c then none else some (cs.map digitValue)

def number? (base : Nat) (cs : List Char) : Option Nat :=
  (digits? base cs).map (Digits.value base)

/-- Whole numbers are those of 128 bits. -/
def whole? (base : Nat) (cs : List Char) : Option Nat :=
  (digits? base cs).bind (Digits.below? (1 <<< 128) base)

/-- Several digits of which the first is zero are text, with a sign or without. -/
def isZeroPadded (cs : List Char) : Bool :=
  let cs := match cs with
    | '+' :: rest | '-' :: rest => rest
    | _ => cs
  match cs with
  | '0' :: c :: rest => (c :: rest).all Char.isDigit
  | _ => false

/-- Digits after a mark for their base. -/
def based? : List Char → Option Nat
  | '0' :: 'x' :: rest => whole? 16 rest
  | '0' :: 'o' :: rest => whole? 8 rest
  | '0' :: 'b' :: rest => whole? 2 rest
  | _ => none

def magnitude? (cs : List Char) : Option Nat :=
  (based? cs).or (whole? 10 cs)

/-- A whole number that is not negative; a plus sign may stand before it. -/
def unsigned? (cs : List Char) : Option Nat :=
  if isZeroPadded cs then none
  else
    match cs with
    | '+' :: rest => magnitude? rest
    | _ => magnitude? cs

def negative? : List Char → Option Nat
  | '-' :: rest => if isZeroPadded rest then none else magnitude? rest
  | _ => none

/-- One of the 128 bits of a negative number is for its sign. -/
def isWhole (cs : List Char) : Bool :=
  (unsigned? cs).isSome || (negative? cs).any fun n => n ≤ 1 <<< 127

/-- An exponent after its letter, with its sign apart. -/
def exponent? (cs : List Char) : Option (Bool × Nat) :=
  match cs with
  | '-' :: rest => (number? 10 rest).map fun n => (true, n)
  | '+' :: rest => (number? 10 rest).map fun n => (false, n)
  | _ => (number? 10 cs).map fun n => (false, n)

/-- Whether a decimal is less than what rounds to no finite 64-bit number. Mostly the count of its
digits tells. -/
def isFinite (digits : List Nat) (places : Nat) (exponent : Bool × Nat) : Bool :=
  let limit := 1 <<< 1024 - 1 <<< 970
  let up := if exponent.1 then 0 else exponent.2
  let down := places + if exponent.1 then exponent.2 else 0
  let size := (digits.dropWhile (· == 0)).length
  if size = 0 ∨ size + up < down + 300 then true
  else if down + 310 < size + up then false
  else Digits.value 10 digits * Decimal.tenTo (up - down) < limit * Decimal.tenTo (down - up)

/-- Digits with a point somewhere and perhaps an exponent. -/
def isDecimal (cs : List Char) : Bool :=
  let whole := cs.takeWhile Char.isDigit
  let rest := cs.drop whole.length
  let (part, rest) := match rest with
    | '.' :: rest => (rest.takeWhile Char.isDigit, rest.dropWhile Char.isDigit)
    | _ => ([], rest)
  match digits? 10 (whole ++ part), rest with
  | none, _ => false
  | some digits, [] => isFinite digits part.length (false, 0)
  | some digits, c :: rest =>
    (c == 'e' || c == 'E') && (exponent? rest).any (isFinite digits part.length)

def isReal (s : String) : Bool :=
  let cs := s.toList
  let bare := match cs with
    | '+' :: rest => rest
    | _ => cs
  [".inf", ".Inf", ".INF"].contains (String.ofList bare)
    || ["-.inf", "-.Inf", "-.INF", ".nan", ".NaN", ".NAN"].contains s
    || match cs with
      | '+' :: rest | '-' :: rest => isDecimal rest
      | _ => isDecimal cs

def kind (s : String) : ScalarKind :=
  if isNull s then .null
  else
    match flag? s with
    | some b => .flag b
    | none =>
      if isWhole s.toList then .whole
      else if !isZeroPadded s.toList && isReal s then .real
      else .text

end Scalar

end Transmux.Yaml
