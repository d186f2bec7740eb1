import Transmux.Proofs.GranulePositions
import Transmux.Proofs.IdentificationHeader
import Transmux.Proofs.NearestBinary64
import Transmux.Proofs.StrictPolicy
import Transmux.Report

/-! Reports on the streams of conversions: what a report says of the headers, the pages and the
duration is what the conversion put there. -/

namespace Transmux

namespace Opus

/-- Samples of the longest packet: 63 frames of 60 ms. -/
def maxSamples : Nat := 2880 * 63

theorem FrameDuration.samples_le (d : FrameDuration) : d.samples ≤ 2880 := by
  cases d <;> decide

theorem samples_le (packet : Bytes) : samples packet ≤ maxSamples := by
  cases packet with
  | nil => decide
  | cons first rest =>
    rw [samples]
    refine Nat.mul_le_mul (FrameDuration.samples_le _) ?_
    cases Toc.frameCode ⟨first⟩ with
    | arbitrary =>
      cases rest with
      | nil => decide
      | cons second rest =>
        have hlt : second.toNat % 64 < 64 := Nat.mod_lt _ (by decide)
        exact Nat.le_of_lt_succ hlt
    | _ => simp

theorem played_le (packets : List Bytes) : played packets ≤ maxSamples * packets.length := by
  induction packets with
  | nil => exact Nat.le_refl 0
  | cons packet packets ih =>
    have hpacket := samples_le packet
    have hplayed : played (packet :: packets) = samples packet + played packets := rfl
    rw [hplayed, List.length_cons, Nat.mul_succ]
    omega

end Opus

namespace Recording

theorem ne_nil_of_mem_frames {filter : Bool} {bytes packet : Bytes}
    (h : packet ∈ (ofBytes filter bytes).frames) : packet ≠ [] := by
  obtain ⟨f, hf, hframe⟩ := List.mem_filterMap.1 h
  have hfits := packetFits_of_mem hf
  cases f with
  | block place fate =>
    cases fate with
    | kept b =>
      obtain rfl : b.data = packet := Option.some.inj hframe
      exact hfits.1
    | _ => cases hframe
  | _ => cases hframe

end Recording

theorem head?_flatten_of_ne_nil {α : Type} {groups : List (List α)} (h : ∀ g ∈ groups, g ≠ []) :
    groups.flatten.head? = groups.head?.bind List.head? := by
  cases groups with
  | nil => rfl
  | cons group groups =>
    cases group with
    | nil => exact absurd rfl (h [] List.mem_cons_self)
    | cons first rest => rfl

namespace Ogg

/-- What does not look at the flags of a page can be had from its place in the audio. -/
theorem map_audioPages {β : Type} {f : Page → β} {g : AudioPage → β} (serial : UInt32)
    (h : ∀ a flags, f (AudioPage.page a serial flags) = g a) (pages : List AudioPage) :
    (audioPages serial pages).map f = pages.map g := by
  apply List.ext_getElem?
  intro i
  rw [List.getElem?_map, getElem?_audioPages, List.getElem?_map, Option.map_map]
  congr 1
  funext a
  exact h a _

end Ogg

namespace PageReport

theorem packets_ofPage (flags : UInt8) (granule : UInt64) (serial sequence : UInt32)
    (packets : List Bytes) :
    (ofPage (.ofPackets flags granule serial sequence packets)).packets = packets.length := by
  change (Ogg.SegmentTable.ofLengths (packets.map List.length)).lengths.length = packets.length
  rw [Ogg.SegmentTable.lengths_ofLengths, List.length_map]

theorem checksumValid_ofPage (flags : UInt8) (granule : UInt64) (serial sequence : UInt32)
    (packets : List Bytes) :
    (ofPage (.ofPackets flags granule serial sequence packets)).checksumValid = true :=
  Ogg.Page.checksumValid_ofPackets ..

end PageReport

namespace Remux

variable {o : Options} {r : Recording} {serial : UInt32}

/-- The pre-skip of a stream: that of the recording, or else that of the options. -/
def preSkip (o : Options) (r : Recording) : UInt16 :=
  (r.context.codecPrivate.bind Opus.Head.preSkip?).getD o.defaultPreSkip

/-- So few packets play for fewer samples than a floating-point number can count exactly. -/
theorem played_lt (hcount : r.frames.length < 2 ^ 32 - 2) : Opus.played r.frames < 2 ^ 53 := by
  have hplayed := Opus.played_le r.frames
  have hmax : Opus.maxSamples * r.frames.length ≤ Opus.maxSamples * (2 ^ 32 - 2) :=
    Nat.mul_le_mul_left _ (Nat.le_of_lt hcount)
  have hsmall : Opus.maxSamples * (2 ^ 32 - 2) < 2 ^ 53 := by decide
  omega

end Remux

namespace Report

theorem firstToc?_of_packets {p : Ogg.Page} {packets : List Bytes}
    (h : p.packets? = some packets) :
    firstToc? p = (packets.head?.bind List.head?).map Opus.Toc.mk := by
  rw [firstToc?, h, Option.bind_eq_bind, Option.bind_some]
  cases packets.head? with
  | none => rfl
  | some packet =>
    rw [Option.bind_eq_bind, Option.bind_some, Option.bind_some]
    cases packet.head? <;> rfl

/-- Whether pages come from a recording is told apart from all else. -/
theorem ofPages_passedThrough (pages : List Ogg.Page) :
    ofPages false pages = { ofPages true pages with remuxed := false } := by
  simp only [ofPages]

/-- The two roundings of `seconds` come to one: of samples that are counted exactly, the first
changes nothing. -/
theorem seconds_isNearest {samples : Nat} (h : samples < 2 ^ 53) :
    (seconds samples).IsNearest (samples / 48000) := by
  have hden : 0 < (Binary64.ofRatio samples 1).ratio.2 := Binary64.shiftLeft_pos Nat.one_pos _
  have hquotient : ((Binary64.ofRatio samples 1).ratio.1 : ℚ)
      / (48000 * (Binary64.ofRatio samples 1).ratio.2 : Nat) = samples / 48000 := by
    rw [← Binary64.magnitude_ofRatio_one h, ← Binary64.ratio_eq, div_div]
    push_cast
    ring
  have hless : (samples : ℚ) / 48000 ≤ samples := div_le_self (Nat.cast_nonneg _) (by norm_num)
  rw [← hquotient] at hless ⊢
  exact Binary64.ofRatio_isNearest _ (Nat.mul_pos (by norm_num) hden)
    (hless.trans_lt (Binary64.cast_lt_two_pow h))

/-- What a report has to say of a stream made of a recording. -/
structure Describes (report : Report) (o : Options) (r : Recording) (out : RemuxOutput) : Prop where
  remuxed_eq : report.remuxed = true
  length_pages : report.pages.length = out.pages
  checksums_valid : ∀ p ∈ report.pages, p.checksumValid = true
  head_eq : ∃ h, report.head = some h ∧ h.version = 1 ∧ h.preSkip = Remux.preSkip o r
    ∧ h.gain = 0 ∧ h.mappingFamily = 0
  vendor_eq : report.vendor = some o.vendor
  firstPacket_eq : ∃ first rest frames, r.frames = (first :: rest) :: frames
    ∧ report.firstPacket = some (Opus.Toc.text ⟨first⟩)
  packets_eq : ((report.pages.drop 2).map PageReport.packets).sum = r.frames.length
  duration_isNearest : report.durationSeconds.IsNearest
    ((out.granule - (Remux.preSkip o r).toNat : Nat) / 48000)

end Report

namespace Remux

variable {o : Options} {r : Recording} {serial : UInt32}

theorem ofBytes_output (serial : UInt32) (hvendor : (Utf8.encode o.vendor).length ≤ 65008)
    (hr : r.frames ≠ [])
    (hsize : (Ogg.Cut.ofPackets o.limits r.frames).oversized = none) (remuxed : Bool) :
    Report.ofBytes remuxed (output o r serial).data
      = .ok (Report.ofPages remuxed (streamPages o r serial)) := by
  rw [Report.ofBytes, pages_output hvendor hr hsize]
  rfl

theorem checksumValid_report (hvendor : (Utf8.encode o.vendor).length ≤ 65008)
    (hr : r.frames ≠ []) (hsize : (Ogg.Cut.ofPackets o.limits r.frames).oversized = none)
    {p : PageReport} (hp : p ∈ (streamPages o r serial).map PageReport.ofPage) :
    p.checksumValid = true := by
  obtain ⟨page, hpage, rfl⟩ := List.mem_map.1 hp
  obtain ⟨i, hi⟩ := List.mem_iff_getElem?.1 hpage
  obtain ⟨granule, packets, -, -, rfl⟩ := getElem?_streamPages hvendor hr hsize hi
  exact PageReport.checksumValid_ofPage ..

theorem sum_packets_report (hsize : (Ogg.Cut.ofPackets o.limits r.frames).oversized = none) :
    ((((streamPages o r serial).map PageReport.ofPage).drop 2).map PageReport.packets).sum
      = r.frames.length := by
  have hdrop : (streamPages o r serial).drop 2 = Ogg.audioPages serial (audio o r) := rfl
  have hcounts : (Ogg.audioPages serial (audio o r)).map (fun p => (PageReport.ofPage p).packets)
      = (audio o r).map fun a => a.packets.length :=
    Ogg.map_audioPages serial (fun a flags => PageReport.packets_ofPage ..) (audio o r)
  have hgroups : (audio o r).map (fun a => a.packets.length)
      = (Ogg.Cut.ofPackets o.limits r.frames).groups.map List.length := by
    rw [← Ogg.AudioPage.map_packets_ofGroups (Ogg.Cut.ofPackets o.limits r.frames).groups,
      List.map_map]
    rfl
  rw [← List.map_drop, hdrop, List.map_map]
  calc ((Ogg.audioPages serial (audio o r)).map (fun p => (PageReport.ofPage p).packets)).sum
      = ((Ogg.Cut.ofPackets o.limits r.frames).groups.map List.length).sum := by
        rw [hcounts, hgroups]
    _ = (Ogg.Cut.ofPackets o.limits r.frames).groups.flatten.length := List.length_flatten.symm
    _ = r.frames.length := by rw [Ogg.Cut.flatten_groups_ofPackets hsize]

/-- The first audio page starts with the first packet of the recording. -/
theorem firstToc?_streamPages (serial : UInt32) (hr : r.frames ≠ [])
    (hsize : (Ogg.Cut.ofPackets o.limits r.frames).oversized = none) :
    (streamPages o r serial)[2]?.bind Report.firstToc?
      = (r.frames.head?.bind List.head?).map Opus.Toc.mk := by
  have haudio : (streamPages o r serial)[2]? = (Ogg.audioPages serial (audio o r))[0]? := rfl
  have hgroups : (Ogg.Cut.ofPackets o.limits r.frames).groups = (audio o r).map (·.packets) :=
    (Ogg.AudioPage.map_packets_ofGroups _).symm
  have hne : ∀ g ∈ (Ogg.Cut.ofPackets o.limits r.frames).groups, g ≠ [] := fun g hg =>
    (Ogg.Cut.ofPackets_allows (one_le_limits_packets o) hr g hg).ne_nil
  have hfirst := head?_flatten_of_ne_nil hne
  rw [Ogg.Cut.flatten_groups_ofPackets hsize, hgroups, List.head?_map] at hfirst
  rw [haudio, Ogg.getElem?_audioPages, ← List.head?_eq_getElem?, hfirst]
  cases (audio o r).head? with
  | none => rfl
  | some a =>
    have hpackets (flags : UInt8) : (a.page serial flags).packets? = some a.packets :=
      Ogg.Page.packets?_ofPackets ..
    exact Report.firstToc?_of_packets (hpackets _)

theorem head_report (o : Options) (r : Recording) (serial : UInt32) (remuxed : Bool) :
    (Report.ofPages remuxed (streamPages o r serial)).head = some (head o r) := by
  have hfirst : (streamPages o r serial).head? = some (headPage o r serial) := rfl
  simp only [Report.ofPages, hfirst, Option.bind_some]
  exact read?_headPage o r serial

theorem vendor_report (remuxed : Bool) (hvendor : (Utf8.encode o.vendor).length < 2 ^ 32) :
    (Report.ofPages remuxed (streamPages o r serial)).vendor = some o.vendor := by
  have hsecond : (streamPages o r serial)[1]?
      = some (.ofPackets 0 0 serial 1 [Opus.Tags.bytes o.vendor]) := rfl
  simp only [Report.ofPages, hsecond, Option.bind_some, Ogg.Page.body_ofPackets,
    List.flatten_singleton]
  exact Opus.Tags.vendor?_bytes hvendor

theorem durationSeconds_report (remuxed : Bool) (hr : r.frames ≠ [])
    (hcount : r.frames.length < 2 ^ 32 - 2)
    (hsize : (Ogg.Cut.ofPackets o.limits r.frames).oversized = none) :
    (Report.ofPages remuxed (streamPages o r serial)).durationSeconds
      = Report.seconds ((output o r serial).granule - (preSkip o r).toNat) := by
  have hplayed : Opus.played r.frames < 2 ^ 64 := (played_lt hcount).trans (by decide)
  have hlast := (timed_streamPages serial hr hsize hplayed).last_eq
  obtain ⟨page, hpage, hgranule⟩ := Option.map_eq_some_iff.1 hlast
  have hhead := head_report o r serial remuxed
  simp only [Report.ofPages] at hhead
  simp only [Report.ofPages, hhead, hpage, Option.elim_some, hgranule]
  rfl

/-- The report on what a conversion of an input wrote. -/
theorem describes_streamPages {filter : Bool} {input : Bytes}
    (hvendor : (Utf8.encode o.vendor).length ≤ 65008)
    (hr : (Recording.ofBytes filter input).frames ≠ [])
    (hcount : (Recording.ofBytes filter input).frames.length < 2 ^ 32 - 2)
    (hsize : (Ogg.Cut.ofPackets o.limits (Recording.ofBytes filter input).frames).oversized
      = none) :
    (Report.ofPages true (streamPages o (Recording.ofBytes filter input) serial)).Describes o
      (Recording.ofBytes filter input) (output o (Recording.ofBytes filter input) serial) where
  remuxed_eq := rfl
  length_pages := by
    rw [Report.ofPages, List.length_map, length_streamPages]
    rfl
  checksums_valid p hp := checksumValid_report hvendor hr hsize hp
  head_eq := ⟨_, head_report o _ serial true, rfl, rfl, rfl, rfl⟩
  vendor_eq := vendor_report true (by omega)
  firstPacket_eq := by
    have hfirst := firstToc?_streamPages serial hr hsize
    obtain ⟨packet, frames, hframes⟩ := List.exists_cons_of_ne_nil hr
    have hpacket : packet ≠ [] := Recording.ne_nil_of_mem_frames (hframes ▸ List.mem_cons_self)
    obtain ⟨first, rest, rfl⟩ := List.exists_cons_of_ne_nil hpacket
    refine ⟨first, rest, frames, hframes, ?_⟩
    rw [hframes] at hfirst
    simp only [Report.ofPages, hfirst]
    rfl
  packets_eq := sum_packets_report hsize
  duration_isNearest := by
    rw [durationSeconds_report true hr hcount hsize]
    refine Report.seconds_isNearest (Nat.lt_of_le_of_lt (Nat.sub_le ..) ?_)
    rw [granule_output hr hsize]
    exact played_lt hcount

end Remux

end Transmux
