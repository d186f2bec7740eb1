import Transmux.Ogg.Checksum
import Transmux.Ogg.SegmentTable

/-! Ogg pages: their fields, their bytes, and the packets in them. -/

namespace Transmux.Ogg

structure Page where
  version : UInt8
  flags : UInt8
  granule : UInt64
  serial : UInt32
  sequence : UInt32
  checksum : UInt32
  segments : SegmentTable
  body : Bytes
deriving DecidableEq

namespace Page

/-- The letters "OggS". -/
def capture : Bytes :=
  [0x4F, 0x67, 0x67, 0x53]

/-- Bytes of a page before its segment table. -/
def headerLength : Nat := 27

def continued : UInt8 := 1
def beginning : UInt8 := 2
def ending : UInt8 := 4

def hasFlag (p : Page) (flag : UInt8) : Bool :=
  p.flags &&& flag != 0

/-- The fields in the order in which they are written, as they stand. -/
def layout (p : Page) : Bytes :=
  capture ++ [p.version, p.flags] ++ Bytes.le 8 p.granule.toNat ++ Bytes.le 4 p.serial.toNat
    ++ Bytes.le 4 p.sequence.toNat ++ Bytes.le 4 p.checksum.toNat
    ++ [UInt8.ofNat p.segments.length] ++ p.segments ++ p.body

def length (p : Page) : Nat :=
  headerLength + p.segments.length + p.body.length

/-- The page in the one version that is written, with the checksum of its bytes. The checksum is
taken with its own field zero. -/
def sealed (p : Page) : Page :=
  let blank := { p with version := 0, checksum := 0 }
  { blank with checksum := Ogg.checksum blank.layout }

/-- A checksum is right if sealing the page anew gives the same. -/
def checksumValid (p : Page) : Bool :=
  p.sealed.checksum == p.checksum

/-- A page that holds whole packets. -/
def ofPackets (flags : UInt8) (granule : UInt64) (serial sequence : UInt32)
    (packets : List Bytes) : Page :=
  sealed {
    version := 0
    flags := flags
    granule := granule
    serial := serial
    sequence := sequence
    checksum := 0
    segments := .ofLengths (packets.map List.length)
    body := packets.flatten }

/-- The packets of a page, unless its body is shorter than its segment table tells. -/
def packets? (p : Page) : Option (List Bytes) :=
  SegmentTable.cut? p.segments.lengths p.body

end Page

end Transmux.Ogg
