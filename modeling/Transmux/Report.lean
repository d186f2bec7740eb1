import Transmux.Data.Json
import Transmux.Data.Yaml
import Transmux.Decimal.Shortest
import Transmux.Ogg.Stream
import Transmux.Opus.Head
import Transmux.Opus.Tags
import Transmux.Opus.Toc

/-! Reports on Ogg streams: the headers, the duration, and a line on every page. -/

namespace Transmux

structure PageReport where
  sequence : UInt32
  flags : List String
  granule : UInt64
  serial : UInt32
  segments : Nat
  packets : Nat
  bodyLength : Nat
  checksumValid : Bool
deriving DecidableEq

namespace PageReport

/-- The names of the flags that are set. -/
def flagNames (p : Ogg.Page) : List String :=
  (if p.hasFlag Ogg.Page.continued then ["continuation"] else [])
    ++ (if p.hasFlag Ogg.Page.beginning then ["bos"] else [])
    ++ if p.hasFlag Ogg.Page.ending then ["eos"] else []

def ofPage (p : Ogg.Page) : PageReport where
  sequence := p.sequence
  flags := flagNames p
  granule := p.granule
  serial := p.serial
  segments := p.segments.length
  packets := p.segments.lengths.length
  bodyLength := p.body.length
  checksumValid := p.checksumValid

def data (r : PageReport) : Data.Value :=
  .record [("sequence", .nat r.sequence.toNat), ("flags", .list (r.flags.map .text)),
    ("granule", .nat r.granule.toNat), ("serial", .nat r.serial.toNat),
    ("segments", .nat r.segments), ("packets", .nat r.packets), ("body_len", .nat r.bodyLength),
    ("crc_ok", .flag r.checksumValid)]

end PageReport

structure Report where
  /-- The pages come from a recording and not from the input itself. -/
  remuxed : Bool
  head : Option Opus.Head
  vendor : Option String
  /-- What the first byte of the first audio packet tells. -/
  firstPacket : Option String
  durationSeconds : Binary64
  pages : List PageReport
deriving DecidableEq

namespace Report

/-- The first packet of a page, if it has a byte. -/
def firstToc? (p : Ogg.Page) : Option Opus.Toc := do
  let packets ← p.packets?
  let packet ← packets.head?
  let first ← packet.head?
  some ⟨first⟩

/-- Seconds that samples at 48 kHz last, as two roundings give them. -/
def seconds (samples : Nat) : Binary64 :=
  let (num, den) := (Binary64.ofRatio samples 1).ratio
  .ofRatio num (48000 * den)

def ofPages (remuxed : Bool) (pages : List Ogg.Page) : Report :=
  let head := pages.head?.bind fun p => Opus.Head.read? p.body
  let preSkip := head.elim 0 fun h => h.preSkip.toNat
  let granule := pages.getLast?.elim 0 fun p => p.granule.toNat
  { remuxed := remuxed
    head := head
    vendor := pages[1]?.bind fun p => Opus.Tags.vendor? p.body
    firstPacket := (pages[2]?.bind firstToc?).map Opus.Toc.text
    durationSeconds := seconds (granule - preSkip)
    pages := pages.map .ofPage }

def ofBytes (remuxed : Bool) (bytes : Bytes) : Except Ogg.ReadError Report :=
  (Ogg.pages bytes).map (ofPages remuxed)

def headData (h : Opus.Head) : Data.Value :=
  .record [("version", .nat h.version.toNat), ("channels", .nat h.channels.toNat),
    ("pre_skip", .nat h.preSkip.toNat), ("input_sample_rate", .nat h.sampleRate.toNat),
    ("output_gain", .int h.gain.toInt), ("mapping_family", .nat h.mappingFamily.toNat)]

def data (r : Report) : Data.Value :=
  .record [("remuxed", .flag r.remuxed), ("head", .option headData r.head),
    ("vendor", .option .text r.vendor), ("first_packet", .option .text r.firstPacket),
    ("duration_secs", .number (Decimal.text r.durationSeconds)),
    ("pages", .list (r.pages.map PageReport.data))]

end Report

end Transmux
