import Mathlib.Data.List.Chain
import Transmux.Proofs.RemuxedStream

/-! Greedy cuts. A page is closed only when the next packet would break one of its limits, so no
cut of the same packets within the limits has fewer pages. -/

namespace Transmux

open Ogg (SegmentTable)

namespace Ogg.SegmentTable

theorem countAll_append (a b : List Bytes) : countAll (a ++ b) = countAll a + countAll b := by
  simp [countAll]

end Ogg.SegmentTable

namespace Limits

variable {l : Limits} {group : List Bytes} {packet : Bytes}

/-- Whether a packet that went onto the page of a group would break a limit. -/
def Refuses (l : Limits) (group : List Bytes) (packet : Bytes) : Prop :=
  l.packets ≤ group.length
    ∨ l.segments < SegmentTable.countAll group + SegmentTable.count packet.length

/-- Whether a group goes on where another one had no room left. -/
def Follows (l : Limits) (group next : List Bytes) : Prop :=
  ∃ packet rest, next = packet :: rest ∧ l.Refuses group packet

theorem Follows.append {next : List Bytes} (h : l.Follows group next) (more : List Bytes) :
    l.Follows group (next ++ more) := by
  obtain ⟨packet, rest, rfl, hfull⟩ := h
  exact ⟨packet, rest ++ more, rfl, hfull⟩

/-- A refused packet shares no page with the whole of the group, whatever else is there. -/
theorem Refuses.not_allows (h : l.Refuses group packet) (hne : group ≠ [])
    (front rest : List Bytes) : ¬ l.Allows (front ++ (group ++ packet :: rest)) := by
  intro hallows
  have hlength := hallows.length_le
  have hcount := hallows.countAll_le
  have hpos := List.length_pos_iff.2 hne
  simp only [List.length_append, List.length_cons, SegmentTable.countAll_append,
    SegmentTable.countAll_cons] at hlength hcount
  rcases h with hfull | hfull
  · omega
  · omega

end Limits

namespace Ogg.Cut

variable {l : Limits} {closed : List (List Bytes)} {pending : List Bytes} {count segments : Nat}

theorem Measured.refuses_iff (h : Measured l pending count segments) (packet : Bytes) :
    l.Refuses pending.reverse packet
      ↔ l.packets ≤ count ∨ l.segments < segments + SegmentTable.count packet.length := by
  rw [Limits.Refuses, List.length_reverse, SegmentTable.countAll_reverse, h.length_eq,
    h.countAll_eq]

/-- Every group but the last is followed by a packet that it had no room for. -/
theorem isChain_extend (hl : 1 ≤ l.packets) {packets : List Bytes}
    (hchain : (closed.reverse ++ [pending.reverse]).IsChain l.Follows)
    (hstart : pending = [] → closed = []) (h : Measured l pending count segments)
    (hsize : (extend l closed pending count segments packets).oversized = none) :
    (extend l closed pending count segments packets).groups.IsChain l.Follows := by
  fun_induction extend l closed pending count segments packets with
  | case1 closed pending count segments => simpa using hchain
  | case2 closed pending count segments packet packets n hbig => cases hsize
  | case3 closed pending count segments packet packets n hbig hfull ih =>
    have hrefused : l.Follows pending.reverse [packet] :=
      ⟨packet, [], rfl, (h.refuses_iff packet).2 hfull.2⟩
    refine ih ?_ (by simp) (.single hl packet) hsize
    rw [List.reverse_cons, List.isChain_append]
    refine ⟨hchain, by simp, ?_⟩
    simpa using hrefused
  | case4 closed pending count segments packet packets n hbig hroom ih =>
    refine ih ?_ (by simp) (h.push hl packet hroom) hsize
    by_cases hp : pending = []
    · simp [hp, hstart hp]
    · rw [List.isChain_append] at hchain ⊢
      refine ⟨hchain.1, by simp, ?_⟩
      intro group hgroup next hnext
      obtain rfl : pending.reverse ++ [packet] = next := by simpa using hnext
      exact (hchain.2.2 group hgroup _ (by simp)).append [packet]

/-- Where a greedy group is closed, another cut that starts no later has closed a group too. -/
theorem exists_tail {cut : List (List Bytes)} {front group : List Bytes} {packet : Bytes}
    {packets : List Bytes} (hflat : cut.flatten = front ++ (group ++ packet :: packets))
    (hallows : ∀ g ∈ cut, l.Allows g) (hfull : l.Refuses group packet) (hne : group ≠ []) :
    ∃ first rest front', cut = first :: rest ∧ rest.flatten = front' ++ packet :: packets := by
  cases cut with
  | nil => simp at hflat
  | cons first rest =>
    rw [List.flatten_cons, ← List.append_assoc] at hflat
    rcases List.append_eq_append_iff.1 hflat with ⟨front', -, hrest⟩ | ⟨beyond, hfirst, hpackets⟩
    · exact ⟨first, rest, front', rfl, hrest⟩
    · cases beyond with
      | nil => exact ⟨first, rest, [], rfl, hpackets.symm⟩
      | cons p beyond =>
        obtain ⟨rfl, -⟩ := List.cons.inj hpackets
        rw [List.append_assoc] at hfirst
        have hbroken := hfull.not_allows hne front beyond
        exact absurd (hfirst ▸ hallows first (by simp)) hbroken

/-- No cut that starts where the unfinished group does, or before it, has fewer groups. The greedy
cut stays ahead: where it starts a group, the other cut has not yet come further. -/
theorem length_groups_extend_le (hl : 1 ≤ l.packets) {packets : List Bytes}
    (h : Measured l pending count segments) (hne : pending ≠ [] ∨ packets ≠ [])
    (hsize : (extend l closed pending count segments packets).oversized = none) :
    ∀ (cut : List (List Bytes)) (front : List Bytes),
      cut.flatten = front ++ (pending.reverse ++ packets) → (∀ g ∈ cut, l.Allows g) →
      (extend l closed pending count segments packets).groups.length
        ≤ closed.length + cut.length := by
  fun_induction extend l closed pending count segments packets with
  | case1 closed pending count segments =>
    intro cut front hflat hallows
    have hp : pending ≠ [] := hne.resolve_right (by simp)
    have hcut : cut ≠ [] := by
      rintro rfl
      simp [hp] at hflat
    have hpos := List.length_pos_iff.2 hcut
    simp only [List.length_reverse, List.length_cons]
    omega
  | case2 closed pending count segments packet packets n hbig => cases hsize
  | case3 closed pending count segments packet packets n hbig hfull ih =>
    intro cut front hflat hallows
    have hrefused := (h.refuses_iff packet).2 hfull.2
    obtain ⟨first, rest, front', rfl, hrest⟩ :=
      exists_tail hflat hallows hrefused (by simpa using hfull.1)
    have hle := ih (.single hl packet) (.inl (by simp)) hsize rest front' hrest
      (fun g hg => hallows g (List.mem_cons_of_mem first hg))
    simp only [List.length_cons] at hle ⊢
    omega
  | case4 closed pending count segments packet packets n hbig hroom ih =>
    intro cut front hflat hallows
    refine ih (h.push hl packet hroom) (.inl (by simp)) hsize cut front ?_ hallows
    simpa using hflat

end Ogg.Cut

/-- A cut of packets into the groups of as few pages as the limits permit. -/
structure Limits.Packs (l : Limits) (packets : List Bytes) (groups : List (List Bytes)) :
    Prop where
  flatten_eq : groups.flatten = packets
  allows : ∀ group ∈ groups, l.Allows group
  isChain : groups.IsChain l.Follows
  fewest : ∀ cut : List (List Bytes), cut.flatten = packets → (∀ group ∈ cut, l.Allows group) →
    groups.length ≤ cut.length

theorem Ogg.Cut.packs_ofPackets {l : Limits} (hl : 1 ≤ l.packets) {packets : List Bytes}
    (hne : packets ≠ []) (hsize : (ofPackets l packets).oversized = none) :
    l.Packs packets (ofPackets l packets).groups where
  flatten_eq := flatten_groups_ofPackets hsize
  allows := ofPackets_allows hl hne
  isChain := isChain_extend hl (by simp) (by simp) (.empty l) hsize
  fewest := by
    intro cut hflat hallows
    have hle := length_groups_extend_le hl (.empty l) (.inr hne) hsize cut [] hflat hallows
    simpa [ofPackets] using hle

namespace Remux

theorem oversized_eq_none {l : Limits} {packets : List Bytes}
    (hfit : ∀ packet ∈ packets, SegmentTable.count packet.length ≤ SegmentTable.maxLength) :
    (Ogg.Cut.ofPackets l packets).oversized = none := by
  rw [Ogg.Cut.oversized_ofPackets, List.find?_eq_none]
  intro packet hpacket
  simpa using hfit packet hpacket

/-- Packets that fit on a page each are written on as few pages as the options allow: at least one
packet may be on a page, and from 1 to 255 segments may be shared. But if so many packets may be on
a page that no room can be asked for them, there is no page at all. -/
theorem audio_pages_fewest {o : Options} {r : Recording} (serial : UInt32) (hne : r.frames ≠ [])
    (hfit : ∀ packet ∈ r.frames,
      SegmentTable.count packet.length ≤ SegmentTable.maxLength) :
    (HasRoom o →
      ∃ out audioPages groups, (write o r serial).result = .ok out
        ∧ out.data
          = (headerPages o (head o r) serial ++ audioPages).flatMap Ogg.Page.layout
        ∧ out.pages = 2 + audioPages.length ∧ audioPages.mapM Ogg.Page.packets? = some groups
        ∧ audioPages.length = groups.length
        ∧ Limits.Packs ⟨max 1 o.maxPacketsPerPage, min 255 (max 1 o.maxSegmentsPerPage)⟩ r.frames
          groups)
      ∧ (¬ HasRoom o →
        write o r serial = ⟨[readNotice (head o r) serial r.frames], .panicked⟩) := by
  refine ⟨fun hroom => ?_, fun hroom => write_of_not_hasRoom hroom r serial⟩
  have hsize := oversized_eq_none (l := o.limits) hfit
  have hpacks := Ogg.Cut.packs_ofPackets (one_le_limits_packets o) hne hsize
  have hlength : (Ogg.audioPages serial (audio o r)).length
      = (Ogg.Cut.ofPackets o.limits r.frames).groups.length := by
    rw [Ogg.length_audioPages, audio, Ogg.AudioPage.length_ofGroups]
  have hwritten : (write o r serial).result = .ok (output o r serial) :=
    write_eq_ok_iff.2 ⟨isReservable_limits_iff.2 hroom, hsize, rfl⟩
  refine ⟨output o r serial, Ogg.audioPages serial (audio o r), _, hwritten, rfl, ?_, ?_, hlength,
    hpacks⟩
  · rw [Ogg.length_audioPages]
    rfl
  · rw [Ogg.mapM_packets?_audioPages, audio, Ogg.AudioPage.map_packets_ofGroups]

/-- Blocks that hold these packets, one each. -/
def blocksOf (packets : List Bytes) : Recording :=
  ⟨{}, packets.map fun packet => .block ⟨0, 0, 0⟩ (.kept ⟨1, .none, packet⟩)⟩

theorem frames_blocksOf (packets : List Bytes) : (blocksOf packets).frames = packets := by
  have hframe : Recording.frame? ∘ (fun packet => .block ⟨0, 0, 0⟩ (.kept ⟨1, .none, packet⟩))
      = some := rfl
  rw [Recording.frames, blocksOf, List.filterMap_map, hframe, List.filterMap_some]

def twoPerPage : Options :=
  { maxPacketsPerPage := 2, maxSegmentsPerPage := 2 }

/-- The second packet takes more segments than the options allow to be shared. -/
def unevenPackets : List Bytes :=
  [[0xFC], List.replicate 600 0xFC, [0xFC], [0xFC], [0xFC]]

theorem audio_pages_fewest_unevenPackets :
    (blocksOf unevenPackets).frames ≠ []
      ∧ (∀ packet ∈ (blocksOf unevenPackets).frames,
        SegmentTable.count packet.length ≤ SegmentTable.maxLength)
      ∧ ∃ out groups, (write twoPerPage (blocksOf unevenPackets) 7).result = .ok out
        ∧ out.pages = 2 + groups.length ∧ groups.length ≤ 4
        ∧ twoPerPage.limits.Packs unevenPackets groups := by
  have hne : (blocksOf unevenPackets).frames ≠ [] := by
    rw [frames_blocksOf]
    exact List.cons_ne_nil _ _
  have hfit : ∀ packet ∈ (blocksOf unevenPackets).frames,
      SegmentTable.count packet.length ≤ SegmentTable.maxLength := by
    rw [frames_blocksOf]
    decide +kernel
  obtain ⟨out, pages, groups, hout, -, hpages, -, hlength, hpacks⟩ :=
    (audio_pages_fewest (o := twoPerPage) 7 hne hfit).1 (by decide)
  rw [frames_blocksOf] at hpacks
  have hle := hpacks.fewest [[[0xFC]], [List.replicate 600 0xFC], [[0xFC], [0xFC]], [[0xFC]]] rfl
    (by
      intro group hgroup
      simp only [List.mem_cons, List.not_mem_nil, or_false] at hgroup
      rcases hgroup with rfl | rfl | rfl | rfl
      · exact Limits.allows_single (by decide) _
      · exact Limits.allows_single (by decide) _
      · exact ⟨by simp, by decide, .inr (by decide)⟩
      · exact Limits.allows_single (by decide) _)
  exact ⟨hne, hfit, out, groups, hout, hlength ▸ hpages, hle, hpacks⟩

/-- Two small packets, and no page for them. -/
theorem audio_pages_unwritten :
    (Recording.ofBytes true twoBlocks).frames = [[0xFC], [0xFC, 0x01]]
      ∧ (∀ packet ∈ (Recording.ofBytes true twoBlocks).frames,
        SegmentTable.count packet.length ≤ SegmentTable.maxLength)
      ∧ ¬ ∃ out, (write unlimited (Recording.ofBytes true twoBlocks) 7).result = .ok out := by
  refine ⟨frames_twoBlocks, by decide +kernel, ?_⟩
  rintro ⟨out, hout⟩
  rw [write_of_not_hasRoom (by decide)] at hout
  cases hout

end Remux

end Transmux
