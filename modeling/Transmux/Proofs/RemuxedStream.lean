import Transmux.Proofs.LogicalStream
import Transmux.Proofs.PageGroups
import Transmux.Remux.Basic

/-! What a conversion writes, as read back from its bytes: the packets of the recording, bit for
bit, on the pages of one well-formed logical stream. -/

namespace Transmux

namespace Remux

theorem one_le_limits_packets (o : Options) : 1 ≤ o.limits.packets :=
  Nat.le_max_left ..

/-- Whether room can be asked for as many packets as the options let share a page. -/
def HasRoom (o : Options) : Prop :=
  o.maxPacketsPerPage < 2 ^ 59

instance (o : Options) : Decidable (HasRoom o) :=
  inferInstanceAs (Decidable (o.maxPacketsPerPage < 2 ^ 59))

theorem isReservable_limits_iff {o : Options} : o.limits.isReservable = true ↔ HasRoom o := by
  rw [Limits.isReservable, HasRoom, decide_eq_true_iff, Options.limits_packets]
  omega

theorem limits_segments_le (o : Options) : o.limits.segments ≤ Ogg.SegmentTable.maxLength :=
  Nat.min_le_left ..

/-- The audio of a recording as groups with their places in the stream. -/
def audio (o : Options) (r : Recording) : List Ogg.AudioPage :=
  Ogg.AudioPage.ofGroups (Ogg.Cut.ofPackets o.limits r.frames).groups

def streamPages (o : Options) (r : Recording) (serial : UInt32) : List Ogg.Page :=
  headerPages o (head o r) serial ++ Ogg.audioPages serial (audio o r)

/-- What a recording becomes if each of its packets fits on a page. -/
def output (o : Options) (r : Recording) (serial : UInt32) : RemuxOutput where
  data := (streamPages o r serial).flatMap Ogg.Page.layout
  passedThrough := false
  pages := Ogg.AudioPage.firstSequence + (audio o r).length
  granule := ((audio o r).getLast?.map Ogg.AudioPage.granule).getD 0

/-- Room for the packets of a page is asked for before any page is written. -/
theorem write_of_not_hasRoom {o : Options} (h : ¬ HasRoom o) (r : Recording) (serial : UInt32) :
    write o r serial = ⟨[readNotice (head o r) serial r.frames], .panicked⟩ := by
  rw [← isReservable_limits_iff] at h
  rw [write, if_neg h]

theorem write_eq_ok_iff {o : Options} {r : Recording} {serial : UInt32} {out : RemuxOutput} :
    (write o r serial).result = .ok out ↔ o.limits.isReservable = true
      ∧ (Ogg.Cut.ofPackets o.limits r.frames).oversized = none ∧ out = output o r serial := by
  cases hroom : o.limits.isReservable with
  | false => simp [write, hroom]
  | true =>
    rw [write, if_pos hroom]
    cases h : (Ogg.Cut.ofPackets o.limits r.frames).oversized with
    | some packet => simp [writePages, h]
    | none =>
      simp only [writePages, h, RemuxResult.ok.injEq, true_and]
      exact eq_comm

theorem convert_eq_ok_iff {o : Options} {drawn : Except String UInt32} {r : Recording}
    {out : RemuxOutput} :
    (convert o drawn r).result = .ok out ↔
      refusal? o r = none ∧ ∃ serial, o.serial.elim drawn .ok = .ok serial
        ∧ o.limits.isReservable = true
        ∧ (Ogg.Cut.ofPackets o.limits r.frames).oversized = none ∧ out = output o r serial := by
  unfold convert
  cases refusal? o r with
  | some e => simp
  | none =>
    cases o.serial.elim drawn .ok with
    | error cause => simp
    | ok serial => simp [write_eq_ok_iff]

theorem frames_ne_nil_of_refusal? {o : Options} {r : Recording} (h : refusal? o r = none) :
    r.frames ≠ [] := by
  intro hr
  unfold refusal? at h
  split at h <;> simp [hr] at h

theorem remux_result {o : Options} {drawn : Except String UInt32} {input : Bytes}
    (h : Bytes.startsWith input Ogg.Page.capture = false) :
    (remux o drawn input).result
      = (convert o drawn (Recording.ofBytes o.filterAudioTrack input)).result := by
  simp [remux, h]

/-- A recording that is accepted, with room for a page and packets that fit, is written. -/
theorem remux_eq_output {o : Options} {drawn : Except String UInt32} {input : Bytes}
    {serial : UInt32} (hinput : Bytes.startsWith input Ogg.Page.capture = false)
    (hrefusal : refusal? o (Recording.ofBytes o.filterAudioTrack input) = none)
    (hserial : o.serial.elim drawn .ok = .ok serial) (hroom : HasRoom o)
    (hsize : (Ogg.Cut.ofPackets o.limits
      (Recording.ofBytes o.filterAudioTrack input).frames).oversized = none) :
    (remux o drawn input).result
      = .ok (output o (Recording.ofBytes o.filterAudioTrack input) serial) := by
  rw [remux_result hinput, convert_eq_ok_iff]
  exact ⟨hrefusal, serial, hserial, isReservable_limits_iff.2 hroom, hsize, rfl⟩

theorem remux_of_startsWith {input : Bytes}
    (h : Bytes.startsWith input Ogg.Page.capture = true) (o : Options)
    (drawn : Except String UInt32) : (remux o drawn input).result = .ok ⟨input, true, 0, 0⟩ := by
  rw [remux, if_pos h]

theorem length_head_bytes (h : Opus.Head) : h.bytes.length = 19 := by
  simp [Opus.Head.bytes, Opus.Head.signature]

theorem length_tags_bytes (vendor : String) :
    (Opus.Tags.bytes vendor).length = (Utf8.encode vendor).length + 16 := by
  simp [Opus.Tags.bytes, Opus.Tags.signature]
  omega

variable {o : Options} {r : Recording} {serial : UInt32}

theorem length_streamPages :
    (streamPages o r serial).length = Ogg.AudioPage.firstSequence + (audio o r).length := by
  simp only [streamPages, headerPages, List.length_append, Ogg.length_audioPages]
  rfl

theorem length_audio_pos (hr : r.frames ≠ [])
    (hsize : (Ogg.Cut.ofPackets o.limits r.frames).oversized = none) : 0 < (audio o r).length := by
  rw [audio, Ogg.AudioPage.length_ofGroups, List.length_pos_iff]
  intro h
  have hflat := Ogg.Cut.flatten_groups_ofPackets hsize
  rw [h] at hflat
  exact hr hflat.symm

theorem length_audio_le (hr : r.frames ≠ [])
    (hsize : (Ogg.Cut.ofPackets o.limits r.frames).oversized = none) :
    (audio o r).length ≤ r.frames.length := by
  rw [audio, Ogg.AudioPage.length_ofGroups]
  exact Ogg.Cut.length_groups_le (one_le_limits_packets o) hr hsize

/-- Every page is made of packets that fit on it, and its place decides its flags and number. -/
theorem getElem?_streamPages (hvendor : (Utf8.encode o.vendor).length ≤ 65008)
    (hr : r.frames ≠ []) (hsize : (Ogg.Cut.ofPackets o.limits r.frames).oversized = none)
    {i : Nat} {p : Ogg.Page} (h : (streamPages o r serial)[i]? = some p) :
    ∃ granule packets, packets ≠ []
      ∧ Ogg.SegmentTable.countAll packets ≤ Ogg.SegmentTable.maxLength
      ∧ p = .ofPackets (Ogg.Page.flagsAt (streamPages o r serial).length i) granule serial
          (UInt32.ofNat i) packets := by
  have hpos := length_audio_pos hr hsize
  have hlen : (streamPages o r serial).length = 2 + (audio o r).length := length_streamPages
  match i with
  | 0 =>
    refine ⟨0, [(head o r).bytes], by simp, ?_, ?_⟩
    · simp [Ogg.SegmentTable.countAll, Ogg.SegmentTable.count, length_head_bytes,
        Ogg.SegmentTable.maxLength]
    · exact (Option.some.inj h).symm
  | 1 =>
    refine ⟨0, [Opus.Tags.bytes o.vendor], by simp, ?_, ?_⟩
    · simp only [Ogg.SegmentTable.countAll, Ogg.SegmentTable.count, length_tags_bytes,
        Ogg.SegmentTable.maxLength, List.map_cons, List.map_nil, List.sum_cons, List.sum_nil]
      omega
    · have hflags : Ogg.Page.flagsAt (streamPages o r serial).length 1 = 0 := by
        rw [Ogg.Page.flagsAt, if_neg (by decide), if_neg (by omega)]
      rw [hflags]
      exact (Option.some.inj h).symm
  | i + 2 =>
    have hi : (Ogg.audioPages serial (audio o r))[i]? = some p := h
    rw [Ogg.getElem?_audioPages] at hi
    obtain ⟨a, ha, rfl⟩ := Option.map_eq_some_iff.1 hi
    have hgroup : a.packets ∈ (Ogg.Cut.ofPackets o.limits r.frames).groups := by
      rw [← Ogg.AudioPage.map_packets_ofGroups (Ogg.Cut.ofPackets o.limits r.frames).groups]
      exact List.mem_map_of_mem (List.mem_of_getElem? ha)
    have hsequence : a.sequence = i + 2 := by
      rw [Ogg.AudioPage.sequence_ofGroups ha, Ogg.AudioPage.firstSequence, Nat.add_comm]
    have hflags : Ogg.Page.flagsAt (streamPages o r serial).length (i + 2)
        = if i + 1 = (audio o r).length then Ogg.Page.ending else 0 := by
      rw [Ogg.Page.flagsAt, if_neg (by omega), hlen]
      exact if_congr (by omega) rfl rfl
    refine ⟨UInt64.ofNat a.granule, a.packets, ?_, ?_, ?_⟩
    · exact (Ogg.Cut.ofPackets_allows (one_le_limits_packets o) hr _ hgroup).ne_nil
    · exact Ogg.Cut.countAll_groups_le (one_le_limits_packets o) (limits_segments_le o) hr hsize _
        hgroup
    · rw [hflags, ← hsequence, Ogg.AudioPage.page]

theorem pages_output (hvendor : (Utf8.encode o.vendor).length ≤ 65008) (hr : r.frames ≠ [])
    (hsize : (Ogg.Cut.ofPackets o.limits r.frames).oversized = none) :
    Ogg.pages (output o r serial).data = .ok (streamPages o r serial) := by
  refine Ogg.pages_layouts fun p hp => ?_
  obtain ⟨i, hi⟩ := List.mem_iff_getElem?.1 hp
  obtain ⟨granule, packets, -, hle, rfl⟩ := getElem?_streamPages hvendor hr hsize hi
  exact Ogg.Page.consistent_ofPackets _ _ _ _ _ hle

theorem packets_streamPages (hsize : (Ogg.Cut.ofPackets o.limits r.frames).oversized = none) :
    (((streamPages o r serial).drop 2).mapM Ogg.Page.packets?).map List.flatten
      = some r.frames := by
  have hdrop : (streamPages o r serial).drop 2 = Ogg.audioPages serial (audio o r) := rfl
  rw [hdrop, Ogg.mapM_packets?_audioPages, audio, Ogg.AudioPage.map_packets_ofGroups,
    Option.map_some, Ogg.Cut.flatten_groups_ofPackets hsize]

theorem logicalStream_streamPages (hvendor : (Utf8.encode o.vendor).length ≤ 65008)
    (hr : r.frames ≠ []) (hcount : r.frames.length < 2 ^ 32 - 2)
    (hsize : (Ogg.Cut.ofPackets o.limits r.frames).oversized = none) :
    Ogg.LogicalStream serial (head o r).bytes (Opus.Tags.bytes o.vendor)
      (streamPages o r serial) := by
  have hpos := length_audio_pos hr hsize
  have hle := length_audio_le hr hsize
  have hlen : (streamPages o r serial).length = 2 + (audio o r).length := length_streamPages
  refine ⟨by omega, fun i p hi => ?_, ?_, ?_⟩
  · obtain ⟨hlt, -⟩ := List.getElem?_eq_some_iff.1 hi
    obtain ⟨granule, packets, hne, hfit, rfl⟩ := getElem?_streamPages hvendor hr hsize hi
    exact Ogg.Page.placed_ofPackets granule (by omega) (by omega) hne hfit
  · exact Ogg.Page.packets?_ofPackets ..
  · exact Ogg.Page.packets?_ofPackets ..

theorem startsWith_of_not_passedThrough {drawn : Except String UInt32} {input : Bytes}
    {out : RemuxOutput} (hout : (remux o drawn input).result = .ok out)
    (hdone : out.passedThrough = false) : Bytes.startsWith input Ogg.Page.capture = false := by
  by_cases hogg : Bytes.startsWith input Ogg.Page.capture = true
  · rw [remux_of_startsWith hogg] at hout
    cases hout
    cases hdone
  · exact Bool.eq_false_iff.2 hogg

/-- The pages that a conversion has written one after the other. They are read back as they are if
the vendor text leaves its page readable. -/
structure MadeOf (vendor : String) (out : RemuxOutput) (pages : List Ogg.Page) : Prop where
  data_eq : out.data = pages.flatMap Ogg.Page.layout
  read_back : (Utf8.encode vendor).length ≤ 65008 → Ogg.pages out.data = .ok pages

theorem madeOf_output (hr : r.frames ≠ [])
    (hsize : (Ogg.Cut.ofPackets o.limits r.frames).oversized = none) :
    MadeOf o.vendor (output o r serial) (streamPages o r serial) where
  data_eq := rfl
  read_back := fun hvendor => pages_output hvendor hr hsize

/-- Two blocks of track 1, with nothing around them. -/
def twoBlocks : Bytes :=
  [0xA3, 0x85, 0x81, 0x00, 0x00, 0x80, 0xFC, 0xA3, 0x86, 0x81, 0x00, 0x00, 0x80, 0xFC, 0x01]

def onePerPage : Options :=
  { maxPacketsPerPage := 1 }

/-- As many packets on a page as 64 bits can count. -/
def unlimited : Options :=
  { maxPacketsPerPage := 2 ^ 64 - 1, serial := some 7 }

theorem frames_twoBlocks : (Recording.ofBytes true twoBlocks).frames = [[0xFC], [0xFC, 0x01]] := by
  decide +kernel

theorem remux_twoBlocks : (remux onePerPage (.ok 7) twoBlocks).result
    = .ok (output onePerPage (Recording.ofBytes true twoBlocks) 7) :=
  remux_eq_output (by decide) (by decide +kernel) rfl (by decide) (by decide +kernel)

/-- The bytes of a successful conversion of a recording, read back as pages, are those of its
packets. -/
theorem frames_read_back {drawn : Except String UInt32} {input : Bytes} {out : RemuxOutput}
    (hinput : Bytes.startsWith input Ogg.Page.capture = false)
    (hvendor : (Utf8.encode o.vendor).length ≤ 65008)
    (hcount : (Recording.ofBytes o.filterAudioTrack input).frames.length < 2 ^ 32 - 2)
    (hout : (remux o drawn input).result = .ok out) :
    ∃ pages, Ogg.pages out.data = .ok pages
      ∧ (pages.map Ogg.Page.length).sum = out.data.length
      ∧ pages.length = out.pages ∧ out.pages < 2 ^ 32
      ∧ ((pages.drop 2).mapM Ogg.Page.packets?).map List.flatten
        = some (Recording.ofBytes o.filterAudioTrack input).frames := by
  rw [remux_result hinput, convert_eq_ok_iff] at hout
  obtain ⟨hrefusal, serial, -, -, hsize, rfl⟩ := hout
  have hr := frames_ne_nil_of_refusal? hrefusal
  have hle := length_audio_le hr hsize
  refine ⟨streamPages o _ serial, pages_output hvendor hr hsize, ?_, length_streamPages, ?_,
    packets_streamPages hsize⟩
  · exact (Ogg.length_layouts _).symm
  · change 2 + (audio o _).length < 2 ^ 32
    omega

theorem frames_read_back_twoBlocks :
    ∃ out, (remux onePerPage (.ok 7) twoBlocks).result = .ok out
      ∧ ∃ pages, Ogg.pages out.data = .ok pages
        ∧ (pages.map Ogg.Page.length).sum = out.data.length
        ∧ pages.length = out.pages ∧ out.pages < 2 ^ 32
        ∧ ((pages.drop 2).mapM Ogg.Page.packets?).map List.flatten
          = some [[0xFC], [0xFC, 0x01]] := by
  have h := frames_read_back (o := onePerPage) (by decide) (by decide +kernel) (by decide +kernel)
    remux_twoBlocks
  have hfilter : onePerPage.filterAudioTrack = true := rfl
  rw [hfilter, frames_twoBlocks] at h
  exact ⟨_, remux_twoBlocks, h⟩

/-- What a successful conversion of a recording writes is one logical stream, of the serial that
the options set or else of the one drawn. -/
theorem logicalStream_of_remux {drawn : Except String UInt32} {input : Bytes} {out : RemuxOutput}
    (hinput : Bytes.startsWith input Ogg.Page.capture = false)
    (hvendor : (Utf8.encode o.vendor).length ≤ 65008)
    (hcount : (Recording.ofBytes o.filterAudioTrack input).frames.length < 2 ^ 32 - 2)
    (hout : (remux o drawn input).result = .ok out) :
    ∃ serial pages, o.serial.elim drawn .ok = .ok serial ∧ Ogg.pages out.data = .ok pages
      ∧ Ogg.LogicalStream serial
        (head o (Recording.ofBytes o.filterAudioTrack input)).bytes (Opus.Tags.bytes o.vendor)
        pages := by
  rw [remux_result hinput, convert_eq_ok_iff] at hout
  obtain ⟨hrefusal, serial, hserial, -, hsize, rfl⟩ := hout
  have hr := frames_ne_nil_of_refusal? hrefusal
  exact ⟨serial, streamPages o _ serial, hserial, pages_output hvendor hr hsize,
    logicalStream_streamPages hvendor hr hcount hsize⟩

theorem logicalStream_of_remux_twoBlocks :
    ∃ out, (remux onePerPage (.ok 7) twoBlocks).result = .ok out
      ∧ ∃ pages, Ogg.pages out.data = .ok pages
        ∧ Ogg.LogicalStream 7 (head onePerPage (Recording.ofBytes true twoBlocks)).bytes
          (Opus.Tags.bytes "giztoy-remux") pages := by
  obtain ⟨serial, pages, hserial, hpages, h⟩ :=
    logicalStream_of_remux (o := onePerPage) (by decide) (by decide +kernel) (by decide +kernel)
      remux_twoBlocks
  obtain rfl : 7 = serial := Except.ok.inj hserial
  exact ⟨_, remux_twoBlocks, pages, hpages, h⟩

end Remux

end Transmux
