import Transmux.Bytes

/-! UTF-8. Reading splits any byte string into scalar values and broken sequences: a lead byte
together with as many of its continuation bytes as fit it makes one item, so that lossy reading
puts one replacement character for each broken sequence. -/

namespace Transmux.Utf8

def encodeChar (c : Char) : Bytes :=
  let n := c.toNat
  if n < 0x80 then [UInt8.ofNat n]
  else if n < 0x800 then [UInt8.ofNat (0xC0 + n / 64), UInt8.ofNat (0x80 + n % 64)]
  else if n < 0x10000 then
    [UInt8.ofNat (0xE0 + n / 4096), UInt8.ofNat (0x80 + n / 64 % 64), UInt8.ofNat (0x80 + n % 64)]
  else
    [UInt8.ofNat (0xF0 + n / 262144), UInt8.ofNat (0x80 + n / 4096 % 64),
      UInt8.ofNat (0x80 + n / 64 % 64), UInt8.ofNat (0x80 + n % 64)]

def encode (s : String) : Bytes :=
  s.toList.flatMap encodeChar

/-- What a lead byte announces: how many continuation bytes, the range of the first of them, and
the leading bits of the scalar value. -/
structure Lead where
  more : Nat
  low : Nat
  high : Nat
  bits : Nat

/-- The ranges leave out overlong forms, surrogates and values past the last scalar value. -/
def lead? (b : Nat) : Option Lead :=
  if b < 0x80 then some ⟨0, 0x80, 0xBF, b⟩
  else if b < 0xC2 then none
  else if b < 0xE0 then some ⟨1, 0x80, 0xBF, b - 0xC0⟩
  else if b < 0xF0 then
    some ⟨2, if b = 0xE0 then 0xA0 else 0x80, if b = 0xED then 0x9F else 0xBF, b - 0xE0⟩
  else if b < 0xF5 then
    some ⟨3, if b = 0xF0 then 0x90 else 0x80, if b = 0xF4 then 0x8F else 0xBF, b - 0xF0⟩
  else none

/-- Takes the continuation bytes that a lead byte announced, or those before the first misfit. -/
def continuation : (more low high bits : Nat) → Bytes → Option Nat × Bytes
  | 0, _, _, bits, rest => (some bits, rest)
  | _ + 1, _, _, _, [] => (none, [])
  | more + 1, low, high, bits, b :: rest =>
    if low ≤ b.toNat ∧ b.toNat ≤ high then
      continuation more 0x80 0xBF (64 * bits + (b.toNat - 0x80)) rest
    else (none, b :: rest)

/-- The first scalar value or broken sequence, and the bytes after it. -/
def first (b : UInt8) (rest : Bytes) : Option Char × Bytes :=
  match lead? b.toNat with
  | none => (none, rest)
  | some l =>
    let (n, rest) := continuation l.more l.low l.high l.bits rest
    (n.map Char.ofNat, rest)

theorem length_continuation_le (more low high bits : Nat) (bs : Bytes) :
    (continuation more low high bits bs).2.length ≤ bs.length := by
  fun_induction continuation more low high bits bs with
  | case1 => exact Nat.le_refl _
  | case2 => exact Nat.le_refl _
  | case3 _ _ _ _ _ rest _ ih => exact Nat.le_succ_of_le ih
  | case4 => exact Nat.le_refl _

theorem length_first_le (b : UInt8) (rest : Bytes) : (first b rest).2.length ≤ rest.length := by
  unfold first
  split
  · exact Nat.le_refl _
  · exact length_continuation_le ..

/-- Adds the items of a byte string, `none` for a broken sequence, to those `seen`, last first. -/
def scan (seen : List (Option Char)) : Bytes → List (Option Char)
  | [] => seen
  | b :: rest => scan ((first b rest).1 :: seen) (first b rest).2
termination_by bs => bs.length
decreasing_by exact Nat.lt_succ_of_le (length_first_le b rest)

def items (bs : Bytes) : List (Option Char) :=
  (scan [] bs).reverse

/-- The text that a byte string spells, if no sequence in it is broken. -/
def decode? (bs : Bytes) : Option String :=
  let found := items bs
  if found.all Option.isSome then some (String.ofList (found.filterMap id)) else none

/-- The text of a byte string with a replacement character for each broken sequence. -/
def decodeLossy (bs : Bytes) : String :=
  String.ofList ((items bs).map fun c => c.getD (Char.ofNat 0xFFFD))

end Transmux.Utf8
