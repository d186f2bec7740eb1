import Transmux.Bytes

/-! The page checksum: the remainder of a byte string, read as a polynomial over two elements with
the most significant bit of each byte first and shifted up by 32, on division by a polynomial of
degree 32. It is defined bit by bit, and computed byte by byte from a table. -/

namespace Transmux.Ogg

namespace Checksum

/-- The divisor without its leading term. -/
def divisor : UInt32 := 0x04C11DB7

/-- One step of the division: the remainder times x, less the divisor if a bit moves out. -/
def step (r : UInt32) : UInt32 :=
  if r &&& 0x80000000 = 0 then r <<< 1 else (r <<< 1) ^^^ divisor

def steps : Nat → UInt32 → UInt32
  | 0, r => r
  | n + 1, r => steps n (step r)

/-- A remainder with the next bit of the dividend taken in. -/
def takeBit (r : UInt32) (bit : Bool) : UInt32 :=
  step (r ^^^ if bit then 0x80000000 else 0)

/-- The bits of a byte, most significant first. -/
def bits (b : UInt8) : List Bool :=
  (List.range 8).map fun i => b.toNat.testBit (7 - i)

/-- The remainder of a dividend given by its bits. -/
def ofBits (bs : List Bool) : UInt32 :=
  bs.foldl takeBit 0

/-- The remainder of each byte, standing for eight leading bits. -/
def table : Vector UInt32 256 :=
  Vector.ofFn fun i => steps 8 (UInt32.ofNat i.val <<< 24)

/-- A remainder with the next byte of the dividend taken in. -/
def takeByte (r : UInt32) (b : UInt8) : UInt32 :=
  let i := (r >>> 24).toUInt8 ^^^ b
  have := i.toNat_lt
  (r <<< 8) ^^^ table[i.toNat]

end Checksum

def checksum (bs : Bytes) : UInt32 :=
  bs.foldl Checksum.takeByte 0

end Transmux.Ogg
