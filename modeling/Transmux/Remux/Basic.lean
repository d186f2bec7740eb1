import Transmux.Recording.Basic
import Transmux.Opus.Head
import Transmux.Opus.Tags
import Transmux.Ogg.Pagination
import Transmux.Log

/-! Remuxing: the packets of a recording, bit for bit, as an Ogg stream. Input that is Ogg already
passes through. -/

namespace Transmux

inductive RemuxError where
  | noFrames
  /-- The walk was stopped, and the policy is strict. -/
  | truncated (issue : Issue)
  | packetTooLarge (length : Nat)
  | noSerial (cause : String)
deriving DecidableEq

def hexText (n : Nat) : String :=
  "0x" ++ String.ofList ((Nat.toDigits 16 n).map Char.toUpper)

def RemuxError.message : RemuxError → String
  | noFrames => "remux: no Opus frames found in input"
  | truncated i =>
    "remux: truncated element " ++ hexText i.parent ++ " at offset " ++ toString i.offset ++ ": "
      ++ i.reason.message
  | packetTooLarge n =>
    "remux: packet of " ++ toString n ++ " bytes does not fit in a single Ogg page"
  | noSerial cause => "remux: failed to draw stream serial: " ++ cause

structure RemuxOutput where
  data : Bytes
  /-- The data is the input itself. -/
  passedThrough : Bool
  /-- Pages written, 0 if passed through. -/
  pages : Nat
  /-- Granule position of the last page, 0 if passed through. -/
  granule : Nat
deriving DecidableEq

/-- The media type of what is written. -/
def contentType : String := "audio/ogg"

/-- How a conversion ends. -/
inductive RemuxResult where
  | ok (out : RemuxOutput)
  | error (e : RemuxError)
  /-- More room was asked for than can be addressed. Nothing is reported: the program is over. -/
  | panicked
deriving DecidableEq

/-- The outcome of a conversion and what the log tells of it. -/
structure RemuxRun where
  notices : List Notice
  result : RemuxResult

namespace Remux

/-- The identification header for a recording. -/
def head (o : Options) (r : Recording) : Opus.Head where
  channels := UInt8.ofNat (min r.context.channels 255)
  preSkip := (r.context.codecPrivate.bind Opus.Head.preSkip?).getD o.defaultPreSkip
  sampleRate := UInt32.ofNat (r.context.sampleRate.clampWhole (UInt32.size - 1))

/-- Why a recording is refused as it is. A strict policy looks at the first issue, and does so
before anything else. -/
def refusal? (o : Options) (r : Recording) : Option RemuxError :=
  match o.parsePolicy, r.issues with
  | .strict, i :: _ => some (.truncated i)
  | _, _ => if r.frames = [] then some .noFrames else none

/-- The two pages before the audio. -/
def headerPages (o : Options) (head : Opus.Head) (serial : UInt32) : List Ogg.Page :=
  [.ofPackets Ogg.Page.beginning 0 serial 0 [head.bytes],
    .ofPackets 0 0 serial 1 [Opus.Tags.bytes o.vendor]]

def readNotice (head : Opus.Head) (serial : UInt32) (frames : List Bytes) : Notice :=
  .recordingRead head.channels.toNat head.sampleRate.toNat head.preSkip.toNat serial.toNat
    frames.length

def pageNotice (a : Ogg.AudioPage) : Notice :=
  .pageWritten a.sequence a.packets.length a.granule

/-- Writes the pages of a recording, for whose packets there is room. -/
def writePages (o : Options) (r : Recording) (serial : UInt32) : RemuxRun :=
  let head := head o r
  let frames := r.frames
  let cut := Ogg.Cut.ofPackets o.limits frames
  let pages := Ogg.AudioPage.ofGroups cut.groups
  let notices := readNotice head serial frames :: pages.map pageNotice
  match cut.oversized with
  | some packet => ⟨notices, .error (.packetTooLarge packet.length)⟩
  | none =>
    let data := (headerPages o head serial ++ Ogg.audioPages serial pages).flatMap Ogg.Page.layout
    let count := Ogg.AudioPage.firstSequence + pages.length
    let granule := (pages.getLast?.map Ogg.AudioPage.granule).getD 0
    ⟨notices ++ [.written count granule data.length], .ok ⟨data, false, count, granule⟩⟩

/-- Writes the frames of a recording that is not refused. Room for the packets of a page is asked
for before the first page, however few packets there are. -/
def write (o : Options) (r : Recording) (serial : UInt32) : RemuxRun :=
  if o.limits.isReservable then writePages o r serial
  else ⟨[readNotice (head o r) serial r.frames], .panicked⟩

/-- Converts a recording. The serial drawn serves only if the options have none. -/
def convert (o : Options) (drawn : Except String UInt32) (r : Recording) : RemuxRun :=
  match refusal? o r with
  | some e => ⟨[], .error e⟩
  | none =>
    match o.serial.elim drawn .ok with
    | .error cause => ⟨[], .error (.noSerial cause)⟩
    | .ok serial => write o r serial

end Remux

/-- Converts an input of either kind. -/
def remux (o : Options) (drawn : Except String UInt32) (input : Bytes) : RemuxRun :=
  if Bytes.startsWith input Ogg.Page.capture then
    ⟨[.passedThrough input.length], .ok ⟨input, true, 0, 0⟩⟩
  else
    let r := Recording.ofBytes o.filterAudioTrack input
    let run := Remux.convert o drawn r
    { run with notices := r.findings.filterMap Notice.ofFinding? ++ run.notices }

end Transmux
