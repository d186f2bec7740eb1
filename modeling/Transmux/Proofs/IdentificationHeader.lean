import Transmux.Proofs.OpusHeaders
import Transmux.Proofs.RecordingViews
import Transmux.Proofs.RemuxedStream

/-! The identification header of a stream. Its channel count is the last one that the recording
tells, up to 255, and it always announces the mapping family of one or two channels. -/

namespace Transmux

namespace Opus.Head

/-- What a player takes without a table of channels: the mapping family of mono and stereo. -/
structure Playable (h : Head) : Prop where
  version_eq : h.version = 1
  mappingFamily_eq : h.mappingFamily = 0
  channels_eq : h.channels = 1 ∨ h.channels = 2

end Opus.Head

/-- The channel count that an event tells. -/
def Event.channels? : Event → Option Nat
  | .leaf id _ data => if Element.ofId? id = some .channels then some (Bytes.word data) else none
  | _ => none

theorem Event.channels?_eq (e : Event) : e.channels? = (e.payload? .channels).map Bytes.word := by
  cases e with
  | leaf id place data =>
    simp only [channels?, payload?, leaf?, Option.bind_some, Element.payload?]
    split <;> rfl
  | _ => rfl

namespace Context

/-- Counts that a context holds. -/
def maxChannels : Nat := UInt32.size - 1

theorem channels_readLeaf (c : Context) (e : Element) (data : Bytes) :
    (c.readLeaf e data).channels
      = if e = .channels then min (Bytes.word data) maxChannels else c.channels := by
  cases e with
  | codecPrivate =>
    simp only [readLeaf]
    split <;> rfl
  | _ => rfl

theorem channels_closeEntry (c : Context) (t : Track) : (c.closeEntry t).channels = c.channels := by
  rw [closeEntry]
  split <;> rfl

theorem channels_after (c : Context) (e : Event) :
    (c.after e).channels = (e.channels?.map fun n => min n maxChannels).getD c.channels := by
  have hafter := view_after (fun data => some (min (Bytes.word data) maxChannels))
    (fun _ _ => rfl) channels_closeEntry channels_readLeaf c e
  rw [hafter, Event.channels?_eq, Option.map_map, Option.map_eq_bind]
  rfl

/-- The last count wins. -/
theorem channels_afterAll (c : Context) (events : List Event) :
    (c.afterAll events).channels
      = ((events.filterMap Event.channels?).getLast?.map fun n => min n maxChannels).getD
        c.channels := by
  rw [afterAll, foldl_last_told channels_after, ← List.map_filterMap, List.getLast?_map]

end Context

namespace Recording

/-- The channel count that an input tells last, or one channel if it tells none. -/
def channelsTold (input : Bytes) : Nat :=
  ((Event.ofBytes input).filterMap Event.channels?).getLast?.getD 1

theorem channels_ofBytes (filter : Bool) (input : Bytes) :
    (ofBytes filter input).context.channels = min (channelsTold input) Context.maxChannels := by
  rw [ofBytes, ofEvents_eq, Context.channels_afterAll, channelsTold]
  cases ((Event.ofBytes input).filterMap Event.channels?).getLast? <;> rfl

end Recording

namespace Remux

variable {o : Options} {r : Recording} {serial : UInt32}

/-- The page of the identification header. -/
def headPage (o : Options) (r : Recording) (serial : UInt32) : Ogg.Page :=
  .ofPackets Ogg.Page.beginning 0 serial 0 [(head o r).bytes]

theorem nextPage_output (o : Options) (r : Recording) (serial : UInt32) :
    ∃ rest, Ogg.Source.nextPage ⟨(output o r serial).data, false⟩
      = (.ok (some (headPage o r serial)), ⟨rest, false⟩) := by
  have hfit : Ogg.SegmentTable.countAll [(head o r).bytes] ≤ Ogg.SegmentTable.maxLength := by
    simp [Ogg.SegmentTable.countAll, Ogg.SegmentTable.count, length_head_bytes,
      Ogg.SegmentTable.maxLength]
  have hpage : (headPage o r serial).Consistent := Ogg.Page.consistent_ofPackets _ _ _ _ _ hfit
  exact ⟨_, Ogg.Source.nextPage_layout hpage _ false⟩

theorem read?_headPage (o : Options) (r : Recording) (serial : UInt32) :
    Opus.Head.read? (headPage o r serial).body = some (head o r) := by
  have hbody : (headPage o r serial).body = (head o r).bytes := by simp [headPage]
  rw [hbody, Opus.Head.read?_bytes]

/-- What is written starts with a page of the header for the recording. -/
theorem headPage_of_remux {drawn : Except String UInt32} {input : Bytes} {out : RemuxOutput}
    (hout : (remux o drawn input).result = .ok out) (hdone : out.passedThrough = false) :
    ∃ page rest, Ogg.Source.nextPage ⟨out.data, false⟩ = (.ok (some page), ⟨rest, false⟩)
      ∧ page.packets? = some [(head o (Recording.ofBytes o.filterAudioTrack input)).bytes]
      ∧ Opus.Head.read? page.body
        = some (head o (Recording.ofBytes o.filterAudioTrack input)) := by
  rw [remux_result (startsWith_of_not_passedThrough hout hdone), convert_eq_ok_iff] at hout
  obtain ⟨-, serial, -, -, -, rfl⟩ := hout
  obtain ⟨rest, hpage⟩ := nextPage_output o (Recording.ofBytes o.filterAudioTrack input) serial
  exact ⟨_, rest, hpage, Ogg.Page.packets?_ofPackets .., read?_headPage ..⟩

theorem channels_head (o : Options) (filter : Bool) (input : Bytes) :
    (head o (Recording.ofBytes filter input)).channels.toNat
      = min 255 (Recording.channelsTold input) := by
  have hclamp : min (min (Recording.channelsTold input) Context.maxChannels) 255
      = min 255 (Recording.channelsTold input) := by
    simp only [Context.maxChannels, UInt32.size]
    omega
  simp only [head, Recording.channels_ofBytes, hclamp]
  exact UInt8.toNat_ofNat_of_lt' (show min 255 _ < 256 by omega)

theorem playable_head_iff (o : Options) (filter : Bool) (input : Bytes) :
    (head o (Recording.ofBytes filter input)).Playable
      ↔ Recording.channelsTold input = 1 ∨ Recording.channelsTold input = 2 := by
  have hchannels := channels_head o filter input
  have hone : (head o (Recording.ofBytes filter input)).channels = 1
      ↔ Recording.channelsTold input = 1 := by
    rw [← UInt8.toNat_inj, hchannels]
    change min 255 _ = 1 ↔ _
    omega
  have htwo : (head o (Recording.ofBytes filter input)).channels = 2
      ↔ Recording.channelsTold input = 2 := by
    rw [← UInt8.toNat_inj, hchannels]
    change min 255 _ = 2 ↔ _
    omega
  rw [← hone, ← htwo]
  exact ⟨fun h => h.channels_eq, fun h => ⟨rfl, rfl, h⟩⟩

/-- The header of a stream is one that a player takes just if the last channel count of the
recording is that of mono or stereo. -/
theorem head_of_remux {drawn : Except String UInt32} {input : Bytes} {out : RemuxOutput}
    (hinput : Bytes.startsWith input Ogg.Page.capture = false)
    (hout : (remux o drawn input).result = .ok out) :
    ∃ page rest h, Ogg.Source.nextPage ⟨out.data, false⟩ = (.ok (some page), ⟨rest, false⟩)
      ∧ page.packets? = some [h.bytes] ∧ Opus.Head.read? page.body = some h
      ∧ h.version = 1 ∧ h.gain = 0 ∧ h.mappingFamily = 0
      ∧ h.channels.toNat = min 255 (Recording.channelsTold input)
      ∧ (h.Playable
        ↔ Recording.channelsTold input = 1 ∨ Recording.channelsTold input = 2) := by
  rw [remux_result hinput, convert_eq_ok_iff] at hout
  obtain ⟨-, serial, -, -, -, rfl⟩ := hout
  obtain ⟨rest, hpage⟩ := nextPage_output o (Recording.ofBytes o.filterAudioTrack input) serial
  exact ⟨_, rest, _, hpage, Ogg.Page.packets?_ofPackets .., read?_headPage .., rfl, rfl, rfl,
    channels_head o _ input, playable_head_iff o _ input⟩

theorem head_of_remux_twoBlocks :
    ∃ out, (remux onePerPage (.ok 7) twoBlocks).result = .ok out
      ∧ ∃ page rest h, Ogg.Source.nextPage ⟨out.data, false⟩ = (.ok (some page), ⟨rest, false⟩)
        ∧ Opus.Head.read? page.body = some h ∧ h.channels.toNat = 1 ∧ h.Playable := by
  have htold : Recording.channelsTold twoBlocks = 1 := by decide +kernel
  obtain ⟨page, rest, h, hpage, -, hread, -, -, -, hchannels, hplayable⟩ :=
    head_of_remux (o := onePerPage) (by decide) remux_twoBlocks
  rw [htold] at hchannels hplayable
  exact ⟨_, remux_twoBlocks, page, rest, h, hpage, hread, hchannels, hplayable.2 (.inl rfl)⟩

/-- A whole recording of two audio tracks with packets of the first, which is stereo. The second
one has six channels. -/
def stereoBeforeSurround : Bytes :=
  [0x1A, 0x45, 0xDF, 0xA3, 0x87, 0x42, 0x82, 0x84, 0x77, 0x65, 0x62, 0x6D, 0x18, 0x53, 0x80,
    0x67, 0xAC, 0x16, 0x54, 0xAE, 0x6B, 0x9A, 0xAE, 0x8B, 0xD7, 0x81, 0x01, 0x83, 0x81, 0x02,
    0xE1, 0x83, 0x9F, 0x81, 0x02, 0xAE, 0x8B, 0xD7, 0x81, 0x02, 0x83, 0x81, 0x02, 0xE1, 0x83,
    0x9F, 0x81, 0x06, 0x1F, 0x43, 0xB6, 0x75, 0x88, 0xA3, 0x86, 0x81, 0x00, 0x00, 0x80, 0xFC,
    0x01]

def withSerial : Options :=
  { serial := some 7 }

theorem remux_stereoBeforeSurround : (remux withSerial (.ok 0) stereoBeforeSurround).result
    = .ok (output withSerial (Recording.ofBytes true stereoBeforeSurround) 7) :=
  remux_eq_output (by decide) (by decide +kernel) rfl (by decide) (by decide +kernel)

/-- The stereo track is announced with the six channels of the other one. -/
theorem surround_announced :
    Bytes.startsWith stereoBeforeSurround Ogg.Page.capture = false
      ∧ ∃ out page rest h, (remux withSerial (.ok 0) stereoBeforeSurround).result = .ok out
        ∧ Ogg.Source.nextPage ⟨out.data, false⟩ = (.ok (some page), ⟨rest, false⟩)
        ∧ Opus.Head.read? page.body = some h ∧ h.mappingFamily = 0 ∧ h.channels.toNat = 6
        ∧ ¬ h.Playable := by
  have htold : Recording.channelsTold stereoBeforeSurround = 6 := by decide +kernel
  obtain ⟨rest, hpage⟩ :=
    nextPage_output withSerial (Recording.ofBytes true stereoBeforeSurround) 7
  have hchannels := channels_head withSerial true stereoBeforeSurround
  have hplayable := playable_head_iff withSerial true stereoBeforeSurround
  rw [htold] at hchannels hplayable
  refine ⟨by decide, _, _, rest, _, remux_stereoBeforeSurround, hpage, read?_headPage .., rfl,
    hchannels, ?_⟩
  rw [hplayable]
  decide

end Remux

end Transmux
