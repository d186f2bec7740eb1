import Transmux.Proofs.SelectedTrack

/-! The channel count and the sample rate of a stream. They are not kept by track: each element that
tells one replaces what any other has told, so those of the last track entry count, whichever track
is selected. -/

namespace Transmux

structure AudioSettings where
  channels : Nat
  sampleRate : Binary64
deriving DecidableEq

def Context.settings (c : Context) : AudioSettings :=
  ⟨c.channels, c.sampleRate⟩

def Event.sampleRate? (e : Event) : Option Binary64 :=
  (e.payload? .samplingFrequency).bind Binary64.ofBytes?

namespace Context

theorem sampleRate_readLeaf (c : Context) (k : Element) (data : Bytes) :
    (c.readLeaf k data).sampleRate
      = if k = .samplingFrequency then (Binary64.ofBytes? data).getD c.sampleRate
        else c.sampleRate := by
  cases k with
  | codecPrivate =>
    simp only [readLeaf]
    split <;> rfl
  | _ => rfl

theorem sampleRate_closeEntry (c : Context) (t : Track) :
    (c.closeEntry t).sampleRate = c.sampleRate := by
  rw [closeEntry]
  split <;> rfl

theorem sampleRate_after (c : Context) (e : Event) :
    (c.after e).sampleRate = e.sampleRate?.getD c.sampleRate :=
  view_after Binary64.ofBytes? (fun _ _ => rfl) sampleRate_closeEntry sampleRate_readLeaf c e

theorem sampleRate_afterAll (c : Context) (events : List Event) :
    (c.afterAll events).sampleRate
      = (events.filterMap Event.sampleRate?).getLast?.getD c.sampleRate := by
  rw [afterAll, foldl_last_told sampleRate_after]

end Context

namespace Document

/-- What the last elements of their kinds tell, or what holds for a stream that tells nothing. -/
def settings (d : Document) : AudioSettings where
  channels := ((d.payloads .channels).getLast?.map
    fun n => min (Bytes.word n) Context.maxChannels).getD ({} : Context).channels
  sampleRate := ((d.payloads .samplingFrequency).filterMap Binary64.ofBytes?).getLast?.getD
    ({} : Context).sampleRate

theorem payload?_events (d : Document) (k : Element) (offset : Nat) :
    (d.events offset).filterMap (Event.payload? k) = d.payloads k := by
  rw [payloads, ← d.leaf?_events offset, List.filterMap_filterMap]
  rfl

theorem channels?_events (d : Document) (offset : Nat) :
    (d.events offset).filterMap Event.channels? = (d.payloads .channels).map Bytes.word := by
  rw [← d.payload?_events .channels offset, List.map_filterMap]
  exact congrArg (fun f => (d.events offset).filterMap f) (funext Event.channels?_eq)

theorem sampleRate?_events (d : Document) (offset : Nat) :
    (d.events offset).filterMap Event.sampleRate?
      = (d.payloads .samplingFrequency).filterMap Binary64.ofBytes? := by
  rw [← d.payload?_events .samplingFrequency offset, List.filterMap_filterMap]
  rfl

theorem settings_afterAll (d : Document) (offset : Nat) :
    (({} : Context).afterAll (d.events offset)).settings = d.settings := by
  rw [Context.settings, Context.channels_afterAll, Context.sampleRate_afterAll, channels?_events,
    sampleRate?_events, List.getLast?_map, Option.map_map]
  rfl

/-- The leaves that stand in no track entry. -/
def outer : Document → List (ElementId × Bytes)
  | empty => []
  | leaf id _ payload next => (id, payload) :: next.outer
  | master id _ children next =>
    if id = Element.trackEntry.id then next.outer else children.outer ++ next.outer

/-- What no leaf around the entries tells is told by them alone. -/
theorem payloads_eq_flatMap {d : Document} {k : Element}
    (h : ∀ leaf ∈ d.outer, k.payload? leaf = none) :
    d.payloads k = d.entries.flatMap fun e => e.payloads k := by
  induction d with
  | empty => rfl
  | leaf id form payload next ih =>
    have hnone : k.payload? (id, payload) = none := h _ List.mem_cons_self
    have hnext := ih fun leaf hleaf => h leaf (List.mem_cons_of_mem _ hleaf)
    rw [payloads, leaves, List.filterMap_cons_none hnone]
    exact hnext
  | master id form children next ihchildren ihnext =>
    have hsplit : (master id form children next).payloads k
        = children.payloads k ++ next.payloads k := List.filterMap_append
    rw [outer] at h
    by_cases hid : id = Element.trackEntry.id
    · rw [if_pos hid] at h
      rw [hsplit, hid, entries_of_eq, List.flatMap_cons, ihnext h]
    · rw [if_neg hid] at h
      rw [hsplit, entries_of_ne hid, List.flatMap_append,
        ihchildren fun leaf hleaf => h leaf (List.mem_append_left _ hleaf),
        ihnext fun leaf hleaf => h leaf (List.mem_append_right _ hleaf)]

/-- An entry with one channel count and one sample rate of four or eight bytes. -/
structure TellsSettings (d : Document) : Prop where
  channels : ∃ n, d.payloads .channels = [n]
  frequency : ∃ f, d.payloads .samplingFrequency = [f] ∧ (f.length = 4 ∨ f.length = 8)

theorem settings_eq_of_last {d l : Document} (hl : d.entries.getLast? = some l)
    (htells : l.TellsSettings)
    (hchannels : ∀ leaf ∈ d.outer, Element.channels.payload? leaf = none)
    (hfrequency : ∀ leaf ∈ d.outer, Element.samplingFrequency.payload? leaf = none) :
    d.settings = l.settings := by
  obtain ⟨entries, hentries⟩ := List.getLast?_eq_some_iff.1 hl
  have hlast (k : Element) (h : ∀ leaf ∈ d.outer, k.payload? leaf = none) :
      d.payloads k = entries.flatMap (fun e => e.payloads k) ++ l.payloads k := by
    rw [payloads_eq_flatMap h, hentries, List.flatMap_append, List.flatMap_singleton]
  obtain ⟨n, hn⟩ := htells.channels
  obtain ⟨f, hf, hlength⟩ := htells.frequency
  obtain ⟨rate, hrate⟩ : ∃ rate, Binary64.ofBytes? f = some rate := by
    rcases hlength with hfour | height
    · exact ⟨_, if_pos hfour⟩
    · exact ⟨_, (if_neg (by omega)).trans (if_pos height)⟩
  rw [settings, settings, hlast _ hchannels, hlast _ hfrequency, hn, hf, List.filterMap_append,
    List.filterMap_cons_some hrate, List.filterMap_nil, List.getLast?_concat, List.getLast?_concat]
  rfl

/-- A written document is announced with what is told last in it. If only track entries tell of
channels and rates, that is what the last of them tells, whichever of them is selected. -/
theorem settings_written_document (filter : Bool) {d : Document} (hd : d.WellFormed)
    (hdepth : d.depth ≤ Event.maxDepth) :
    (Recording.ofBytes filter d.bytes).context.settings = d.settings
      ∧ (∀ o drawn out, o.filterAudioTrack = filter →
        (remux o drawn d.bytes).result = .ok out → out.passedThrough = false →
        ∃ page rest h, Ogg.Source.nextPage ⟨out.data, false⟩ = (.ok (some page), ⟨rest, false⟩)
          ∧ page.packets? = some [h.bytes] ∧ Opus.Head.read? page.body = some h
          ∧ h.channels = UInt8.ofNat (min d.settings.channels 255)
          ∧ h.sampleRate = UInt32.ofNat (d.settings.sampleRate.clampWhole (UInt32.size - 1)))
      ∧ ∀ l, d.entries.getLast? = some l → l.TellsSettings →
        (∀ leaf ∈ d.outer, Element.channels.payload? leaf = none) →
        (∀ leaf ∈ d.outer, Element.samplingFrequency.payload? leaf = none) →
        (Recording.ofBytes filter d.bytes).context.settings = l.settings := by
  have hread : (Recording.ofBytes filter d.bytes).context.settings = d.settings := by
    rw [ofBytes_bytes_eq filter hd hdepth, settings_afterAll]
  refine ⟨hread, fun o drawn out hfilter hout hdone => ?_,
    fun l hl htells hchannels hfrequency =>
      hread.trans (settings_eq_of_last hl htells hchannels hfrequency)⟩
  obtain ⟨page, rest, hpage, hpackets, hhead⟩ := Remux.headPage_of_remux hout hdone
  refine ⟨page, rest, _, hpage, hpackets, hhead, ?_, ?_⟩
  · rw [← hread, ← hfilter]
    rfl
  · rw [← hread, ← hfilter]
    rfl

/-- An entry of an audio track with settings of its own. -/
def writtenEntry (number channels : UInt8) (frequency : Bytes) : Document :=
  short .trackNumber [number] (short .trackType [2]
    (.master Element.audio.id (.known 1)
      (short .channels [channels] (short .samplingFrequency frequency .empty)) .empty))

theorem tellsSettings_writtenEntry (number channels : UInt8) {frequency : Bytes}
    (h : frequency.length = 4 ∨ frequency.length = 8) :
    (writtenEntry number channels frequency).TellsSettings :=
  ⟨⟨[channels], rfl⟩, frequency, rfl, h⟩

/-- A stereo track of 44100 samples per second, which is selected. -/
def stereoEntry : Document :=
  writtenEntry 1 2 [0x47, 0x2C, 0x44, 0x00]

/-- A track of six channels and 48000 samples per second. -/
def surroundEntry : Document :=
  writtenEntry 2 6 [0x47, 0x3B, 0x80, 0x00]

/-- A recording of the two, with a packet of the first. -/
def stereoThenSurround : Document :=
  .master Element.ebml.id (.known 1) (.leaf 0x4282 (.known 1) [0x77, 0x65, 0x62, 0x6D] .empty)
    (.master Element.segment.id (.known 1)
      (.master Element.tracks.id (.known 1)
        (.master Element.trackEntry.id (.known 1) stereoEntry
          (.master Element.trackEntry.id (.known 1) surroundEntry .empty))
        (.master Element.cluster.id (.known 1)
          (short .simpleBlock [0x81, 0, 0, 0, 0xFC, 1] .empty) .empty)) .empty)

theorem settings_written_document_stereoThenSurround :
    (Recording.ofBytes true stereoThenSurround.bytes).context.settings = surroundEntry.settings
      ∧ ∃ out page rest h,
        (remux Remux.withSerial (.ok 0) stereoThenSurround.bytes).result = .ok out
        ∧ Ogg.Source.nextPage ⟨out.data, false⟩ = (.ok (some page), ⟨rest, false⟩)
        ∧ Opus.Head.read? page.body = some h ∧ h.channels = 6 ∧ h.sampleRate = 48000 := by
  obtain ⟨-, hremux, hlast⟩ :=
    settings_written_document true (d := stereoThenSurround) (by decide) (by decide)
  have hout : (remux Remux.withSerial (.ok 0) stereoThenSurround.bytes).result
      = .ok (Remux.output Remux.withSerial
          (Recording.ofBytes true stereoThenSurround.bytes) 7) :=
    Remux.remux_eq_output (by decide) (by decide +kernel) rfl (by decide) (by decide +kernel)
  obtain ⟨page, rest, h, hpage, -, hread, hchannels, hrate⟩ :=
    hremux Remux.withSerial (.ok 0) _ rfl hout rfl
  have hsettings := hlast surroundEntry rfl (tellsSettings_writtenEntry _ _ (.inl rfl)) (by decide)
    (by decide)
  have hrate' : h.sampleRate = 48000 := hrate.trans (by decide +kernel)
  exact ⟨hsettings, _, page, rest, h, hout, hpage, hread, hchannels, hrate'⟩

/-- The selected track is stereo at 44100 samples per second, and yet the stream is announced with
what the other entry tells. -/
theorem settings_of_other_track :
    stereoThenSurround.WellFormed ∧ stereoThenSurround.IsSized
      ∧ stereoThenSurround.entries = [stereoEntry, surroundEntry]
      ∧ stereoEntry.TellsSettings ∧ surroundEntry.TellsSettings
      ∧ stereoThenSurround.firstAudio? = some stereoEntry
      ∧ (Recording.ofBytes true stereoThenSurround.bytes).context.audioTrack = some 1
      ∧ stereoEntry.settings = ⟨2, ⟨0x40E5888000000000⟩⟩
      ∧ (Recording.ofBytes true stereoThenSurround.bytes).context.settings
        = ⟨6, ⟨0x40E7700000000000⟩⟩ :=
  ⟨by decide, by decide, rfl, tellsSettings_writtenEntry _ _ (.inl rfl),
    tellsSettings_writtenEntry _ _ (.inl rfl), by decide +kernel, by decide +kernel, by decide,
    by decide +kernel⟩

end Document

end Transmux
