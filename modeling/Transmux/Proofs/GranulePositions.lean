import Transmux.Proofs.RemuxedStream

/-! Granule positions: a page is stamped with the samples of all packets up to its end, so how the
packets are cut into pages decides which stamps are written but not what any of them says. -/

namespace Transmux

namespace Opus

/-- Samples of one frame in each of the 32 configurations: three bandwidths of SILK, two of the
hybrid mode and four of CELT, each with its durations in rising order. -/
def frameSamples : List Nat :=
  (List.replicate 3 [480, 960, 1920, 2880] ++ List.replicate 2 [480, 960]
    ++ List.replicate 4 [120, 240, 480, 960]).flatten

theorem frameSamples_configuration (toc : Toc) :
    frameSamples[toc.byte.toNat / 8]? = some toc.configuration.frameDuration.samples := by
  have htable : ∀ n : Fin 32,
      frameSamples[n.val]? = some (Configuration.mk n.val).frameDuration.samples := by decide
  have hlt : toc.byte.toNat / 8 < 32 := by
    have hbyte := toc.byte.toNat_lt
    omega
  exact htable ⟨_, hlt⟩

/-- A packet has as many frames as its code says: one, two, or the number in the low six bits of its
second byte. All of them are as long as its configuration says. -/
theorem samples_cons (first : UInt8) (rest : Bytes) :
    ∃ perFrame, frameSamples[first.toNat / 8]? = some perFrame
      ∧ samples (first :: rest) = perFrame * [1, 2, 2, rest.head?.elim 1 fun b => b.toNat % 64].getD
        (first.toNat % 4) 0 := by
  refine ⟨_, frameSamples_configuration ⟨first⟩, ?_⟩
  have hlt : first.toNat % 4 < 4 := Nat.mod_lt _ (by decide)
  rw [samples, Toc.frameCode]
  dsimp only
  generalize first.toNat % 4 = code at hlt
  have hcode : code = 0 ∨ code = 1 ∨ code = 2 ∨ code = 3 := by omega
  rcases hcode with rfl | rfl | rfl | rfl <;> rfl

example : samples [0xFB, 0xC3, 0x00] = 2880 := rfl

/-- Samples that packets decode to one after the other. -/
def played (packets : List Bytes) : Nat :=
  (packets.map samples).sum

theorem played_append (a b : List Bytes) : played (a ++ b) = played a + played b := by
  simp [played]

theorem played_mono {a b : List Bytes} (h : a <+: b) : played a ≤ played b := by
  obtain ⟨rest, rfl⟩ := h
  rw [played_append]
  exact Nat.le_add_right ..

end Opus

namespace Ogg

namespace AudioPage

theorem granule_number {sequence granule i : Nat} {groups : List (List Bytes)} {a : AudioPage}
    (h : (number sequence granule [] groups)[i]? = some a) :
    a.granule = granule + Opus.played (groups.take (i + 1)).flatten := by
  induction groups generalizing sequence granule i with
  | nil => simp [number_nil] at h
  | cons group groups ih =>
    rw [number_cons] at h
    cases i with
    | zero =>
      obtain rfl : _ = a := by simpa using h
      simp [Opus.played]
    | succ i =>
      have hi := ih (by simpa using h)
      have hgroup : (group.map Opus.samples).sum = Opus.played group := rfl
      rw [hi, hgroup, List.take_succ_cons, List.flatten_cons, Opus.played_append]
      omega

theorem granule_ofGroups {groups : List (List Bytes)} {i : Nat} {a : AudioPage}
    (h : (ofGroups groups)[i]? = some a) :
    a.granule = Opus.played (groups.take (i + 1)).flatten := by
  rw [granule_number h, Nat.zero_add]

end AudioPage

/-- The packets on the audio pages up to the one that has so many of them before it. -/
def packetsThrough (pages : List Page) (i : Nat) : Option (List Bytes) :=
  (((pages.drop 2).take (i + 1)).mapM Page.packets?).map List.flatten

/-- What the granule positions of a stream of these packets have to be. -/
structure Timed (frames : List Bytes) (pages : List Page) (granule : Nat) : Prop where
  header_eq : ∀ p ∈ pages.take 2, p.granule = 0
  audio_eq : ∀ (i : Nat) (p : Page), pages[i + 2]? = some p →
    ∃ packets, packetsThrough pages i = some packets ∧ packets <+: frames
      ∧ p.granule.toNat = Opus.played packets
  monotone : (pages.map fun p => p.granule.toNat).Pairwise (· ≤ ·)
  last_eq : pages.getLast?.map (fun p => p.granule.toNat) = some granule
  total_eq : granule = Opus.played frames

/-- After equally many packets, two streams of the same packets are equally far. -/
theorem Timed.granule_eq {frames : List Bytes} {pages pages' : List Page} {granule granule' : Nat}
    (h : Timed frames pages granule) (h' : Timed frames pages' granule') {i i' : Nat} {p p' : Page}
    (hp : pages[i + 2]? = some p) (hp' : pages'[i' + 2]? = some p')
    (hlength : (packetsThrough pages i).map List.length
      = (packetsThrough pages' i').map List.length) : p.granule = p'.granule := by
  obtain ⟨packets, hthrough, hprefix, hgranule⟩ := h.audio_eq i p hp
  obtain ⟨packets', hthrough', hprefix', hgranule'⟩ := h'.audio_eq i' p' hp'
  have hsame : packets.length = packets'.length := by simpa [hthrough, hthrough'] using hlength
  have hpackets : packets = packets' := by
    rw [List.prefix_iff_eq_take.1 hprefix, List.prefix_iff_eq_take.1 hprefix', hsame]
  rw [← UInt64.toNat_inj, hgranule, hgranule', hpackets]

theorem mapM_packets?_take {pages : List Page} {packets : List (List Bytes)}
    (h : pages.mapM Page.packets? = some packets) (n : Nat) :
    (pages.take n).mapM Page.packets? = some (packets.take n) := by
  induction pages generalizing packets n with
  | nil =>
    obtain rfl : [] = packets := by simpa using h
    simp
  | cons p pages ih =>
    rw [List.mapM_cons] at h
    cases hp : p.packets? with
    | none => simp [hp] at h
    | some first =>
      cases hpages : pages.mapM Page.packets? with
      | none => simp [hp, hpages] at h
      | some rest =>
        obtain rfl : first :: rest = packets := by simpa [hp, hpages] using h
        cases n with
        | zero => rfl
        | succ n => simp [hp, ih hpages n]

end Ogg

namespace Remux

variable {o : Options} {r : Recording} {serial : UInt32}

theorem flatten_take_groups (hsize : (Ogg.Cut.ofPackets o.limits r.frames).oversized = none)
    (n : Nat) : ((Ogg.Cut.ofPackets o.limits r.frames).groups.take n).flatten <+: r.frames := by
  have hflat := Ogg.Cut.flatten_groups_ofPackets hsize
  have hsplit := List.take_append_drop n (Ogg.Cut.ofPackets o.limits r.frames).groups
  refine ⟨((Ogg.Cut.ofPackets o.limits r.frames).groups.drop n).flatten, ?_⟩
  rw [← List.flatten_append, hsplit, hflat]

theorem packetsThrough_streamPages (i : Nat) :
    Ogg.packetsThrough (streamPages o r serial) i
      = some ((Ogg.Cut.ofPackets o.limits r.frames).groups.take (i + 1)).flatten := by
  have hdrop : (streamPages o r serial).drop 2 = Ogg.audioPages serial (audio o r) := rfl
  have hpackets := Ogg.mapM_packets?_take
    (Ogg.mapM_packets?_audioPages serial (audio o r)) (i + 1)
  rw [Ogg.packetsThrough, hdrop, hpackets, audio, Ogg.AudioPage.map_packets_ofGroups]
  rfl

theorem granule_audio {i : Nat} {a : Ogg.AudioPage} (h : (audio o r)[i]? = some a) :
    a.granule
      = Opus.played ((Ogg.Cut.ofPackets o.limits r.frames).groups.take (i + 1)).flatten :=
  Ogg.AudioPage.granule_ofGroups h

theorem granule_audio_le (hsize : (Ogg.Cut.ofPackets o.limits r.frames).oversized = none)
    {a : Ogg.AudioPage} (ha : a ∈ audio o r) : a.granule ≤ Opus.played r.frames := by
  obtain ⟨i, hi⟩ := List.mem_iff_getElem?.1 ha
  rw [granule_audio hi]
  exact Opus.played_mono (flatten_take_groups hsize (i + 1))

theorem granule_output (hr : r.frames ≠ [])
    (hsize : (Ogg.Cut.ofPackets o.limits r.frames).oversized = none) :
    (output o r serial).granule = Opus.played r.frames := by
  have hpos := length_audio_pos hr hsize
  have hlength : (Ogg.Cut.ofPackets o.limits r.frames).groups.length = (audio o r).length := by
    rw [audio, Ogg.AudioPage.length_ofGroups]
  have hlast : (audio o r)[(audio o r).length - 1]? = some ((audio o r)[(audio o r).length - 1]) :=
    List.getElem?_eq_getElem (by omega)
  have hall : (Ogg.Cut.ofPackets o.limits r.frames).groups.take ((audio o r).length - 1 + 1)
      = (Ogg.Cut.ofPackets o.limits r.frames).groups := List.take_of_length_le (by omega)
  have hgranule := granule_audio hlast
  rw [hall, Ogg.Cut.flatten_groups_ofPackets hsize] at hgranule
  change ((audio o r).getLast?.map Ogg.AudioPage.granule).getD 0 = Opus.played r.frames
  rw [List.getLast?_eq_getElem?, hlast, Option.map_some, Option.getD_some, hgranule]

theorem map_granule_audioPages (serial : UInt32) {pages : List Ogg.AudioPage}
    (hbound : ∀ a ∈ pages, a.granule < 2 ^ 64) :
    (Ogg.audioPages serial pages).map (fun p => p.granule.toNat)
      = pages.map Ogg.AudioPage.granule := by
  apply List.ext_getElem?
  intro i
  rw [List.getElem?_map, Ogg.getElem?_audioPages, List.getElem?_map, Option.map_map]
  cases ha : pages[i]? with
  | none => rfl
  | some a =>
    have hlt := hbound a (List.mem_of_getElem? ha)
    change some (UInt64.ofNat a.granule).toNat = some a.granule
    rw [UInt64.toNat_ofNat', Nat.mod_eq_of_lt hlt]

theorem map_granule_streamPages (serial : UInt32)
    (hsize : (Ogg.Cut.ofPackets o.limits r.frames).oversized = none)
    (hsum : Opus.played r.frames < 2 ^ 64) :
    (streamPages o r serial).map (fun p => p.granule.toNat)
      = 0 :: 0 :: (audio o r).map Ogg.AudioPage.granule := by
  have haudio := map_granule_audioPages serial fun a ha =>
    Nat.lt_of_le_of_lt (granule_audio_le hsize ha) hsum
  rw [streamPages, List.map_append, haudio]
  rfl

theorem pairwise_granule_audio (o : Options) (r : Recording) :
    ((audio o r).map Ogg.AudioPage.granule).Pairwise (· ≤ ·) := by
  rw [List.pairwise_iff_getElem]
  intro i j hi hj hij
  rw [List.getElem_map, List.getElem_map, granule_audio (List.getElem?_eq_getElem _),
    granule_audio (List.getElem?_eq_getElem _)]
  apply Opus.played_mono
  -- the packets up to the earlier page are the first ones of those up to the later page
  have htake : ((Ogg.Cut.ofPackets o.limits r.frames).groups.take (j + 1)).take (i + 1)
      = (Ogg.Cut.ofPackets o.limits r.frames).groups.take (i + 1) := by
    rw [List.take_take, Nat.min_eq_left (by omega)]
  have hsplit := List.take_append_drop (i + 1)
    ((Ogg.Cut.ofPackets o.limits r.frames).groups.take (j + 1))
  rw [htake] at hsplit
  rw [← hsplit, List.flatten_append]
  exact List.prefix_append ..

theorem timed_streamPages (serial : UInt32) (hr : r.frames ≠ [])
    (hsize : (Ogg.Cut.ofPackets o.limits r.frames).oversized = none)
    (hsum : Opus.played r.frames < 2 ^ 64) :
    Ogg.Timed r.frames (streamPages o r serial) (output o r serial).granule where
  header_eq := by
    intro p hp
    have hheaders : (streamPages o r serial).take 2 = headerPages o (head o r) serial := rfl
    rw [hheaders, headerPages] at hp
    rcases List.mem_pair.1 hp with rfl | rfl <;> rfl
  audio_eq := by
    intro i p hp
    have hgranules := congrArg (·[i + 2]?) (map_granule_streamPages serial hsize hsum)
    simp only [List.getElem?_map, hp, Option.map_some, List.getElem?_cons_succ] at hgranules
    obtain ⟨a, ha, hgranule⟩ := Option.map_eq_some_iff.1 hgranules.symm
    exact ⟨_, packetsThrough_streamPages i, flatten_take_groups hsize (i + 1),
      hgranule.symm.trans (granule_audio ha)⟩
  monotone := by
    rw [map_granule_streamPages serial hsize hsum]
    simp [pairwise_granule_audio o r]
  last_eq := by
    have hpos := length_audio_pos hr hsize
    have hne : audio o r ≠ [] := List.length_pos_iff.1 hpos
    have houtput : (output o r serial).granule
        = ((audio o r).getLast?.map Ogg.AudioPage.granule).getD 0 := rfl
    rw [← List.getLast?_map, map_granule_streamPages serial hsize hsum, houtput]
    simp [List.getLast?_cons, List.getLast?_eq_some_getLast hne]
  total_eq := granule_output hr hsize

/-- The same options with other limits for pages. -/
def withLimits (o : Options) (packets segments : Nat) : Options :=
  { o with maxPacketsPerPage := packets, maxSegmentsPerPage := segments }

/-- Of the limits for pages, only one that no room can be had for keeps a conversion from going
well. -/
theorem exists_convert_withLimits_iff {drawn : Except String UInt32} {out : RemuxOutput}
    (hout : (convert o drawn r).result = .ok out) (packets segments : Nat) :
    (∃ out', (convert (withLimits o packets segments) drawn r).result = .ok out')
      ↔ HasRoom (withLimits o packets segments) := by
  obtain ⟨hrefusal, serial, hserial, -, hsize, -⟩ := convert_eq_ok_iff.1 hout
  constructor
  · rintro ⟨out', hout'⟩
    obtain ⟨-, -, -, hroom, -⟩ := convert_eq_ok_iff.1 hout'
    exact isReservable_limits_iff.1 hroom
  · intro hroom
    rw [Ogg.Cut.oversized_ofPackets] at hsize
    have hsize' : (Ogg.Cut.ofPackets (withLimits o packets segments).limits r.frames).oversized
        = none := by
      rw [Ogg.Cut.oversized_ofPackets, hsize]
    exact ⟨_, convert_eq_ok_iff.2
      ⟨hrefusal, serial, hserial, isReservable_limits_iff.2 hroom, hsize', rfl⟩⟩

theorem timed_of_convert {drawn : Except String UInt32} {out : RemuxOutput}
    (hout : (convert o drawn r).result = .ok out) (hsum : Opus.played r.frames < 2 ^ 64) :
    ∃ pages, MadeOf o.vendor out pages ∧ Ogg.Timed r.frames pages out.granule := by
  obtain ⟨hrefusal, serial, -, -, hsize, rfl⟩ := convert_eq_ok_iff.1 hout
  have hr := frames_ne_nil_of_refusal? hrefusal
  exact ⟨_, madeOf_output hr hsize, timed_streamPages serial hr hsize hsum⟩

/-- Every page of a conversion is stamped with the samples of all packets up to its end, and with
other limits for pages the same packets are stamped the same. -/
theorem timed_of_remux {drawn : Except String UInt32} {input : Bytes} {out : RemuxOutput}
    (hout : (remux o drawn input).result = .ok out) (hdone : out.passedThrough = false)
    (hsum : Opus.played (Recording.ofBytes o.filterAudioTrack input).frames < 2 ^ 64) :
    ∃ pages, MadeOf o.vendor out pages
      ∧ Ogg.Timed (Recording.ofBytes o.filterAudioTrack input).frames pages out.granule
      ∧ ∀ packets segments,
        ((∃ out', (remux (withLimits o packets segments) drawn input).result = .ok out')
          ↔ HasRoom (withLimits o packets segments))
        ∧ ∀ out', (remux (withLimits o packets segments) drawn input).result = .ok out' →
          ∃ pages', MadeOf o.vendor out' pages'
          ∧ Ogg.Timed (Recording.ofBytes o.filterAudioTrack input).frames pages' out'.granule
          ∧ out'.granule = out.granule
          ∧ ∀ (i i' : Nat) (p p' : Ogg.Page), pages[i + 2]? = some p → pages'[i' + 2]? = some p' →
            (Ogg.packetsThrough pages i).map List.length
              = (Ogg.packetsThrough pages' i').map List.length → p.granule = p'.granule := by
  have hinput := startsWith_of_not_passedThrough hout hdone
  rw [remux_result hinput] at hout
  obtain ⟨pages, hmade, htimed⟩ := timed_of_convert hout hsum
  refine ⟨pages, hmade, htimed, fun packets segments => ?_⟩
  have hresult : (remux (withLimits o packets segments) drawn input).result
      = (convert (withLimits o packets segments) drawn
        (Recording.ofBytes o.filterAudioTrack input)).result := remux_result hinput
  rw [hresult]
  refine ⟨exists_convert_withLimits_iff hout packets segments, fun out' hout' => ?_⟩
  obtain ⟨pages', hmade', htimed'⟩ := timed_of_convert hout' hsum
  refine ⟨pages', hmade', htimed', ?_, ?_⟩
  · rw [htimed'.total_eq, htimed.total_eq]
  · exact fun i i' p p' hp hp' hlength => htimed.granule_eq htimed' hp hp' hlength

theorem timed_of_remux_twoBlocks :
    ∃ out, (remux onePerPage (.ok 7) twoBlocks).result = .ok out
      ∧ ∃ pages, Ogg.pages out.data = .ok pages
        ∧ Ogg.Timed [[0xFC], [0xFC, 0x01]] pages 1920
        ∧ ∃ out', (remux (withLimits onePerPage 2 255) (.ok 7) twoBlocks).result = .ok out'
          ∧ out'.granule = 1920 := by
  have hfilter : onePerPage.filterAudioTrack = true := rfl
  have h := timed_of_remux (o := onePerPage) remux_twoBlocks rfl (by
    rw [hfilter, frames_twoBlocks]
    decide)
  rw [hfilter, frames_twoBlocks] at h
  obtain ⟨pages, hmade, htimed, hlimits⟩ := h
  obtain ⟨hroom, hsame⟩ := hlimits 2 255
  obtain ⟨out', hout'⟩ := hroom.2 (by decide)
  obtain ⟨-, -, -, hgranule, -⟩ := hsame out' hout'
  have htotal := htimed.total_eq
  rw [htotal] at htimed hgranule
  exact ⟨_, remux_twoBlocks, pages, hmade.read_back (by decide), htimed, out', hout', hgranule⟩

end Remux

end Transmux
