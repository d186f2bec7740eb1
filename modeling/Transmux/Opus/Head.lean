import Transmux.Bytes

/-! The identification header of an Opus stream. -/

namespace Transmux.Opus

structure Head where
  version : UInt8 := 1
  channels : UInt8
  preSkip : UInt16
  sampleRate : UInt32
  /-- A signed number of 16 bits. -/
  gain : Int16 := 0
  mappingFamily : UInt8 := 0
deriving DecidableEq

namespace Head

/-- The letters "OpusHead". -/
def signature : Bytes :=
  [0x4F, 0x70, 0x75, 0x73, 0x48, 0x65, 0x61, 0x64]

def bytes (h : Head) : Bytes :=
  signature ++ [h.version, h.channels] ++ Bytes.le 2 h.preSkip.toNat
    ++ Bytes.le 4 h.sampleRate.toNat ++ Bytes.le 2 h.gain.toUInt16.toNat ++ [h.mappingFamily]

/-- Reads the nineteen bytes of a header; more may follow. -/
def read? (data : Bytes) : Option Head := do
  let (mark, rest) ← Bytes.split? 8 data
  let (version, rest) ← Bytes.split? 1 rest
  let (channels, rest) ← Bytes.split? 1 rest
  let (preSkip, rest) ← Bytes.split? 2 rest
  let (sampleRate, rest) ← Bytes.split? 4 rest
  let (gain, rest) ← Bytes.split? 2 rest
  let (family, _) ← Bytes.split? 1 rest
  if mark = signature then
    some {
      version := UInt8.ofNat (Bytes.ofLe version)
      channels := UInt8.ofNat (Bytes.ofLe channels)
      preSkip := UInt16.ofNat (Bytes.ofLe preSkip)
      sampleRate := UInt32.ofNat (Bytes.ofLe sampleRate)
      gain := (UInt16.ofNat (Bytes.ofLe gain)).toInt16
      mappingFamily := UInt8.ofNat (Bytes.ofLe family) }
  else none

/-- The pre-skip of a header that may be cut off after that field. -/
def preSkip? (data : Bytes) : Option UInt16 := do
  let (mark, rest) ← Bytes.split? 8 data
  let (_, rest) ← Bytes.split? 2 rest
  let (preSkip, _) ← Bytes.split? 2 rest
  if mark = signature then some (UInt16.ofNat (Bytes.ofLe preSkip)) else none

end Head

end Transmux.Opus
