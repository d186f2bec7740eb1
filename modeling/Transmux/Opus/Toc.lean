import Transmux.Bytes

/-! The first byte of an Opus packet: its configuration, whether it is stereo, and how many frames
the packet holds; and from these the duration of a packet in samples at 48 kHz. -/

namespace Transmux.Opus

inductive Mode where
  | silk
  | hybrid
  | celt
deriving DecidableEq

def Mode.name : Mode → String
  | silk => "SILK"
  | hybrid => "Hybrid"
  | celt => "CELT"

inductive Bandwidth where
  | narrow
  | medium
  | wide
  | superWide
  | full
deriving DecidableEq

def Bandwidth.name : Bandwidth → String
  | narrow => "NB"
  | medium => "MB"
  | wide => "WB"
  | superWide => "SWB"
  | full => "FB"

inductive FrameDuration where
  | ms2_5
  | ms5
  | ms10
  | ms20
  | ms40
  | ms60
deriving DecidableEq

namespace FrameDuration

def name : FrameDuration → String
  | ms2_5 => "2.5ms"
  | ms5 => "5ms"
  | ms10 => "10ms"
  | ms20 => "20ms"
  | ms40 => "40ms"
  | ms60 => "60ms"

def samples : FrameDuration → Nat
  | ms2_5 => 120
  | ms5 => 240
  | ms10 => 480
  | ms20 => 960
  | ms40 => 1920
  | ms60 => 2880

end FrameDuration

/-- A configuration number; 32 of them have a meaning of their own. -/
structure Configuration where
  number : Nat
deriving DecidableEq

namespace Configuration

def mode (c : Configuration) : Mode :=
  if c.number < 12 then .silk else if c.number < 16 then .hybrid else .celt

def bandwidth (c : Configuration) : Bandwidth :=
  if c.number < 4 then .narrow
  else if c.number < 8 then .medium
  else if c.number < 12 then .wide
  else if c.number < 14 then .superWide
  else if c.number < 16 then .full
  else if c.number < 20 then .narrow
  else if c.number < 24 then .wide
  else if c.number < 28 then .superWide
  else .full

/-- The SILK part has four durations for each bandwidth, the hybrid part two, the rest four. -/
def frameDuration (c : Configuration) : FrameDuration :=
  if c.number < 12 then
    match c.number % 4 with
    | 0 => .ms10
    | 1 => .ms20
    | 2 => .ms40
    | _ => .ms60
  else if c.number < 16 then if c.number % 2 = 0 then .ms10 else .ms20
  else if c.number < 32 then
    match c.number % 4 with
    | 0 => .ms2_5
    | 1 => .ms5
    | 2 => .ms10
    | _ => .ms20
  else .ms60

end Configuration

/-- How the frames of a packet are packed. -/
inductive FrameCode where
  | one
  | twoEqual
  | twoDifferent
  | arbitrary
deriving DecidableEq

def FrameCode.name : FrameCode → String
  | one => "one frame"
  | twoEqual => "two equal frames"
  | twoDifferent => "two different frames"
  | arbitrary => "arbitrary frames"

/-- The byte that starts a packet. -/
structure Toc where
  byte : UInt8
deriving DecidableEq

namespace Toc

def configuration (t : Toc) : Configuration :=
  ⟨t.byte.toNat / 8⟩

def isStereo (t : Toc) : Bool :=
  t.byte.toNat / 4 % 2 == 1

def frameCode (t : Toc) : FrameCode :=
  match t.byte.toNat % 4 with
  | 0 => .one
  | 1 => .twoEqual
  | 2 => .twoDifferent
  | _ => .arbitrary

def text (t : Toc) : String :=
  let c := t.configuration
  "config=" ++ toString c.number ++ ", mode=" ++ c.mode.name ++ ", bw=" ++ c.bandwidth.name ++ ", "
    ++ c.frameDuration.name ++ ", " ++ t.frameCode.name ++ ", stereo="
    ++ (if t.isStereo then "true" else "false")

end Toc

/-- Samples that a packet decodes to. An empty packet counts as 20 ms; a packet that should tell
its number of frames but has no second byte counts as one frame. -/
def samples : Bytes → Nat
  | [] => 960
  | first :: rest =>
    let toc : Toc := ⟨first⟩
    let frames :=
      match toc.frameCode with
      | .one => 1
      | .twoEqual | .twoDifferent => 2
      | .arbitrary => rest.head?.elim 1 fun b => b.toNat % 64
    toc.configuration.frameDuration.samples * frames

end Transmux.Opus
