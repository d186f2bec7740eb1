import Transmux.Digits
import Transmux.Text.Utf8

/-! The tokens of a JSON text. A string whose escapes or bytes spell no text is still a token, as
nothing may want to know what it says. -/

namespace Transmux.Json

inductive Token where
  | openList
  | closeList
  | openRecord
  | closeRecord
  | comma
  | colon
  | null
  | flag (b : Bool)
  /-- The value of a plain literal: digits only, without sign, fraction or exponent. A value of more
  than 64 bits is none. -/
  | number (whole : Option Nat)
  | text (content : Option String)
deriving DecidableEq

/-- A byte of a string as it stands, or a code unit written as an escape. -/
inductive Piece where
  | byte (b : UInt8)
  | unit (n : Nat)
deriving DecidableEq

namespace Piece

def isHigh (n : Nat) : Bool :=
  0xD800 ≤ n && n < 0xDC00

def isLow (n : Nat) : Bool :=
  0xDC00 ≤ n && n < 0xE000

/-- The bytes that pieces spell; the halves of a code point must stand together. -/
def bytes? : List Piece → Option Bytes
  | [] => some []
  | byte b :: rest => (bytes? rest).map (b :: ·)
  | unit n :: rest =>
    if isHigh n then
      match rest with
      | unit m :: rest =>
        if isLow m then
          (bytes? rest).map
            (Utf8.encodeChar (Char.ofNat (0x10000 + 1024 * (n - 0xD800) + (m - 0xDC00))) ++ ·)
        else none
      | _ => none
    else if isLow n then none
    else (bytes? rest).map (Utf8.encodeChar (Char.ofNat n) ++ ·)

def text? (pieces : List Piece) : Option String :=
  (bytes? pieces).bind Utf8.decode?

end Piece

def hexValue? (b : UInt8) : Option Nat :=
  let n := b.toNat
  if 48 ≤ n ∧ n ≤ 57 then some (n - 48)
  else if 97 ≤ n ∧ n ≤ 102 then some (n - 87)
  else if 65 ≤ n ∧ n ≤ 70 then some (n - 55)
  else none

/-- The character that a one-letter escape stands for. -/
def escaped? (b : UInt8) : Option UInt8 :=
  match b.toNat with
  | 0x22 | 0x5C | 0x2F => some b
  | 0x62 => some 8
  | 0x66 => some 12
  | 0x6E => some 10
  | 0x72 => some 13
  | 0x74 => some 9
  | _ => none

/-- The pieces of a string up to its closing quote, added to those `seen`, last first. -/
def takeString (seen : List Piece) : Bytes → Option (List Piece × Bytes)
  | 0x22 :: rest => some (seen.reverse, rest)
  | 0x5C :: 0x75 :: a :: b :: c :: d :: rest => do
    let a ← hexValue? a
    let b ← hexValue? b
    let c ← hexValue? c
    let d ← hexValue? d
    takeString (.unit (4096 * a + 256 * b + 16 * c + d) :: seen) rest
  | 0x5C :: b :: rest => do takeString (.byte (← escaped? b) :: seen) rest
  | b :: rest => if b < 0x20 ∨ b = 0x5C then none else takeString (.byte b :: seen) rest
  | [] => none

def isDigit (b : UInt8) : Bool :=
  48 ≤ b && b ≤ 57

/-- At least one digit. -/
def dropDigits? (bs : Bytes) : Option Bytes :=
  match bs with
  | [] => none
  | b :: _ => if isDigit b then some (bs.dropWhile isDigit) else none

/-- Leaves out an exponent, if one follows. -/
def dropExponent? : Bytes → Option Bytes
  | 0x65 :: rest | 0x45 :: rest =>
    match rest with
    | 0x2B :: rest | 0x2D :: rest => dropDigits? rest
    | _ => dropDigits? rest
  | rest => some rest

/-- Leaves out a fraction and an exponent, as far as they follow. -/
def dropFraction? : Bytes → Option Bytes
  | 0x2E :: rest => (dropDigits? rest).bind dropExponent?
  | rest => dropExponent? rest

def wholeValue? (digits : Bytes) : Option Nat :=
  Digits.below? UInt64.size 10 (digits.map fun b => b.toNat - 48)

/-- What makes a number one that is not plain. -/
def startsFraction (b : UInt8) : Bool :=
  b == 0x2E || b == 0x65 || b == 0x45

/-- A number without its sign. Nothing but the digit itself may follow a leading zero. -/
def takeNumber (negative : Bool) (bs : Bytes) : Option (Token × Bytes) :=
  let digits := bs.takeWhile isDigit
  let rest := bs.drop digits.length
  if digits.isEmpty || (digits.head? == some 48 && 1 < digits.length) then none
  else (dropFraction? rest).map fun after =>
    let plain := !negative && !rest.head?.any startsFraction
    (.number (if plain then wholeValue? digits else none), after)

/-- The token that a byte starts. -/
def takeToken (b : UInt8) (rest : Bytes) : Option (Token × Bytes) :=
  match b.toNat, rest with
  | 0x5B, _ => some (.openList, rest)
  | 0x5D, _ => some (.closeList, rest)
  | 0x7B, _ => some (.openRecord, rest)
  | 0x7D, _ => some (.closeRecord, rest)
  | 0x2C, _ => some (.comma, rest)
  | 0x3A, _ => some (.colon, rest)
  | 0x6E, 0x75 :: 0x6C :: 0x6C :: rest => some (.null, rest)
  | 0x74, 0x72 :: 0x75 :: 0x65 :: rest => some (.flag true, rest)
  | 0x66, 0x61 :: 0x6C :: 0x73 :: 0x65 :: rest => some (.flag false, rest)
  | 0x22, _ => (takeString [] rest).map fun (pieces, rest) => (.text (Piece.text? pieces), rest)
  | 0x2D, _ => takeNumber true rest
  | _, _ => takeNumber false (b :: rest)

def isBlank (b : UInt8) : Bool :=
  b == 0x20 || b == 0x0A || b == 0x0D || b == 0x09

/-- Splits a text into tokens and adds them to those `seen`, last first. Every step takes a byte, so
that `fuel` of the text's length is enough. -/
def tokensWithin (seen : List Token) : (fuel : Nat) → Bytes → Option (List Token)
  | _, [] => some seen.reverse
  | 0, _ :: _ => none
  | fuel + 1, b :: rest =>
    if isBlank b then tokensWithin seen fuel rest
    else do
      let (token, rest) ← takeToken b rest
      tokensWithin (token :: seen) fuel rest

def tokens? (bs : Bytes) : Option (List Token) :=
  tokensWithin [] bs.length bs

end Transmux.Json
