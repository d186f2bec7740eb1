import Mathlib.Algebra.BigOperators.Group.List.Basic
import Transmux.Ogg.Pagination
import Transmux.Proofs.PageReading

/-! Cutting packets into groups, and groups into pages. Unless a packet fits on no page the groups
hold all packets in order, and each of them keeps within the limits. Pages are numbered without
gaps, and the last one alone ends the stream. -/

namespace Transmux

open Ogg (SegmentTable)

namespace Ogg.SegmentTable

theorem countAll_cons (packet : Bytes) (packets : List Bytes) :
    countAll (packet :: packets) = count packet.length + countAll packets := by
  simp [countAll]

theorem countAll_reverse (packets : List Bytes) : countAll packets.reverse = countAll packets := by
  simp only [countAll, List.map_reverse, List.sum_reverse]

end Ogg.SegmentTable

/-- Whether a group may be one page: a packet that is alone may take any number of segments. -/
structure Limits.Allows (l : Limits) (group : List Bytes) : Prop where
  ne_nil : group ≠ []
  length_le : group.length ≤ l.packets
  countAll_le : group.length = 1 ∨ SegmentTable.countAll group ≤ l.segments

theorem Limits.Allows.reverse {l : Limits} {group : List Bytes} (h : l.Allows group) :
    l.Allows group.reverse where
  ne_nil := by simpa using h.ne_nil
  length_le := by simpa using h.length_le
  countAll_le := by simpa [SegmentTable.countAll_reverse] using h.countAll_le

theorem Limits.allows_single {l : Limits} (hl : 1 ≤ l.packets) (packet : Bytes) :
    l.Allows [packet] :=
  ⟨by simp, hl, .inl rfl⟩

namespace Ogg

namespace Cut

/-- What holds of the unfinished group and its measures after every packet. -/
structure Measured (l : Limits) (pending : List Bytes) (count segments : Nat) : Prop where
  length_eq : pending.length = count
  countAll_eq : SegmentTable.countAll pending = segments
  allows : pending ≠ [] → l.Allows pending

theorem Measured.empty (l : Limits) : Measured l [] 0 0 :=
  ⟨rfl, rfl, fun h => absurd rfl h⟩

theorem Measured.single {l : Limits} (hl : 1 ≤ l.packets) (packet : Bytes) :
    Measured l [packet] 1 (SegmentTable.count packet.length) where
  length_eq := rfl
  countAll_eq := by simp [SegmentTable.countAll]
  allows := fun _ => Limits.allows_single hl packet

theorem Measured.push {l : Limits} (hl : 1 ≤ l.packets) {pending : List Bytes}
    {count segments : Nat} (h : Measured l pending count segments) (packet : Bytes)
    (hfits : ¬ (pending ≠ [] ∧ (l.packets ≤ count
      ∨ l.segments < segments + SegmentTable.count packet.length))) :
    Measured l (packet :: pending) (count + 1)
      (segments + SegmentTable.count packet.length) := by
  by_cases hp : pending = []
  · subst hp
    obtain ⟨rfl, rfl, -⟩ := h
    simpa [SegmentTable.countAll] using Measured.single hl packet
  · have hroom : count < l.packets
        ∧ segments + SegmentTable.count packet.length ≤ l.segments := by
      simpa [hp] using hfits
    have hsum : SegmentTable.countAll (packet :: pending)
        = segments + SegmentTable.count packet.length := by
      rw [SegmentTable.countAll_cons, h.countAll_eq, Nat.add_comm]
    refine ⟨by simp [h.length_eq], hsum, fun _ => ⟨by simp, ?_, .inr ?_⟩⟩
    · rw [List.length_cons, h.length_eq]
      exact hroom.1
    · rw [hsum]
      exact hroom.2

theorem Measured.close {l : Limits} {pending : List Bytes} {count segments : Nat}
    (h : Measured l pending count segments) (hp : pending ≠ []) {closed : List (List Bytes)}
    (hclosed : ∀ g ∈ closed, l.Allows g) : ∀ g ∈ pending.reverse :: closed, l.Allows g := by
  intro g hg
  rcases List.mem_cons.1 hg with rfl | hg
  · exact (h.allows hp).reverse
  · exact hclosed g hg

theorem extend_allows {l : Limits} (hl : 1 ≤ l.packets) {closed : List (List Bytes)}
    {pending : List Bytes} {count segments : Nat} {packets : List Bytes}
    (hclosed : ∀ g ∈ closed, l.Allows g) (h : Measured l pending count segments)
    (hne : pending ≠ [] ∨ packets ≠ []) :
    ∀ g ∈ (extend l closed pending count segments packets).groups, l.Allows g := by
  fun_induction extend l closed pending count segments packets with
  | case1 closed pending count segments =>
    have hp : pending ≠ [] := hne.resolve_right (by simp)
    exact fun g hg => h.close hp hclosed g (List.mem_reverse.1 hg)
  | case2 closed pending count segments packet packets n hbig =>
    exact fun g hg => hclosed g (List.mem_reverse.1 hg)
  | case3 closed pending count segments packet packets n hbig hfull ih =>
    exact ih (h.close hfull.1 hclosed) (.single hl packet) (.inl (by simp))
  | case4 closed pending count segments packet packets n hbig hroom ih =>
    exact ih hclosed (h.push hl packet hroom) (.inl (by simp))

theorem flatten_groups_extend {l : Limits} {closed : List (List Bytes)} {pending : List Bytes}
    {count segments : Nat} {packets : List Bytes}
    (h : (extend l closed pending count segments packets).oversized = none) :
    (extend l closed pending count segments packets).groups.flatten
      = closed.reverse.flatten ++ (pending.reverse ++ packets) := by
  fun_induction extend l closed pending count segments packets with
  | case1 => simp
  | case2 => simp at h
  | case3 closed pending count segments packet packets n hbig hfull ih => simpa using ih h
  | case4 closed pending count segments packet packets n hbig hroom ih => simpa using ih h

theorem oversized_extend (l : Limits) (closed : List (List Bytes)) (pending : List Bytes)
    (count segments : Nat) (packets : List Bytes) :
    (extend l closed pending count segments packets).oversized
      = packets.find? fun packet => SegmentTable.maxLength < SegmentTable.count packet.length := by
  fun_induction extend l closed pending count segments packets with
  | case1 => rfl
  | case2 closed pending count segments packet packets n hbig => simp [hbig, n]
  | case3 closed pending count segments packet packets n hbig hfull ih => simpa [hbig, n] using ih
  | case4 closed pending count segments packet packets n hbig hroom ih => simpa [hbig, n] using ih

theorem oversized_ofPackets (l : Limits) (packets : List Bytes) :
    (ofPackets l packets).oversized
      = packets.find? fun packet => SegmentTable.maxLength < SegmentTable.count packet.length :=
  oversized_extend ..

theorem flatten_groups_ofPackets {l : Limits} {packets : List Bytes}
    (h : (ofPackets l packets).oversized = none) : (ofPackets l packets).groups.flatten = packets :=
  flatten_groups_extend h

theorem ofPackets_allows {l : Limits} (hl : 1 ≤ l.packets) {packets : List Bytes}
    (hne : packets ≠ []) : ∀ g ∈ (ofPackets l packets).groups, l.Allows g :=
  extend_allows hl (by simp) (.empty l) (.inr hne)

/-- Every group fits on a page, be it for the limit on segments or for its one packet. -/
theorem countAll_groups_le {l : Limits} (hl : 1 ≤ l.packets)
    (hmax : l.segments ≤ SegmentTable.maxLength) {packets : List Bytes} (hne : packets ≠ [])
    (h : (ofPackets l packets).oversized = none) :
    ∀ g ∈ (ofPackets l packets).groups, SegmentTable.countAll g ≤ SegmentTable.maxLength := by
  intro g hg
  rcases (ofPackets_allows hl hne g hg).countAll_le with hone | hle
  · obtain ⟨packet, rfl⟩ := List.length_eq_one_iff.1 hone
    have hmem : packet ∈ packets := by
      rw [← flatten_groups_ofPackets h]
      exact List.mem_flatten_of_mem hg (by simp)
    rw [oversized_ofPackets] at h
    have hsmall := List.find?_eq_none.1 h packet hmem
    simpa [SegmentTable.countAll] using hsmall
  · exact hle.trans hmax

theorem length_groups_le {l : Limits} (hl : 1 ≤ l.packets) {packets : List Bytes}
    (hne : packets ≠ []) (h : (ofPackets l packets).oversized = none) :
    (ofPackets l packets).groups.length ≤ packets.length := by
  have hsum := List.length_flatten (L := (ofPackets l packets).groups)
  rw [flatten_groups_ofPackets h] at hsum
  rw [hsum]
  have hpos : ∀ n ∈ (ofPackets l packets).groups.map List.length, 1 ≤ n := by
    intro n hn
    obtain ⟨g, hg, rfl⟩ := List.mem_map.1 hn
    exact List.length_pos_iff.2 (ofPackets_allows hl hne g hg).ne_nil
  simpa using List.length_le_sum_of_one_le _ hpos

end Cut

namespace AudioPage

theorem number_nil (sequence granule : Nat) (done : List AudioPage) :
    number sequence granule done [] = done.reverse :=
  rfl

theorem number_step (sequence granule : Nat) (done : List AudioPage) (group : List Bytes)
    (groups : List (List Bytes)) :
    number sequence granule done (group :: groups)
      = number (sequence + 1) (granule + (group.map Opus.samples).sum)
        (⟨sequence, granule + (group.map Opus.samples).sum, group⟩ :: done) groups :=
  rfl

theorem number_eq_append (sequence granule : Nat) (done : List AudioPage)
    (groups : List (List Bytes)) :
    number sequence granule done groups = done.reverse ++ number sequence granule [] groups := by
  induction groups generalizing sequence granule done with
  | nil => simp [number_nil]
  | cons group groups ih =>
    rw [number_step, number_step, ih, ih _ _ [_]]
    simp

theorem number_cons (sequence granule : Nat) (group : List Bytes) (groups : List (List Bytes)) :
    number sequence granule [] (group :: groups)
      = ⟨sequence, granule + (group.map Opus.samples).sum, group⟩
        :: number (sequence + 1) (granule + (group.map Opus.samples).sum) [] groups := by
  rw [number_step, number_eq_append]
  rfl

theorem map_packets_number (sequence granule : Nat) (groups : List (List Bytes)) :
    (number sequence granule [] groups).map packets = groups := by
  induction groups generalizing sequence granule with
  | nil => rfl
  | cons group groups ih => rw [number_cons, List.map_cons, ih]

@[simp] theorem map_packets_ofGroups (groups : List (List Bytes)) :
    (ofGroups groups).map packets = groups :=
  map_packets_number ..

@[simp] theorem length_ofGroups (groups : List (List Bytes)) :
    (ofGroups groups).length = groups.length := by
  rw [← List.length_map (f := packets), map_packets_ofGroups]

theorem sequence_number {sequence granule i : Nat} {groups : List (List Bytes)} {a : AudioPage}
    (h : (number sequence granule [] groups)[i]? = some a) : a.sequence = sequence + i := by
  induction groups generalizing sequence granule i with
  | nil => simp [number_nil] at h
  | cons group groups ih =>
    rw [number_cons] at h
    cases i with
    | zero =>
      obtain rfl : _ = a := by simpa using h
      rfl
    | succ i =>
      have hi := ih (by simpa using h)
      omega

theorem sequence_ofGroups {groups : List (List Bytes)} {i : Nat} {a : AudioPage}
    (h : (ofGroups groups)[i]? = some a) : a.sequence = firstSequence + i :=
  sequence_number h

end AudioPage

/-- The page at each place, which alone ends the stream if it is the last. -/
theorem getElem?_audioPages (serial : UInt32) (pages : List AudioPage) (i : Nat) :
    (audioPages serial pages)[i]?
      = pages[i]?.map fun a => a.page serial (if i + 1 = pages.length then Page.ending else 0) := by
  rcases List.eq_nil_or_concat pages with rfl | ⟨front, last, rfl⟩
  · rfl
  · simp only [audioPages, List.concat_eq_append, List.dropLast_concat, List.getLast?_concat,
      Option.map_some, Option.toList_some, List.length_append, List.length_singleton,
      Nat.add_right_cancel_iff]
    rcases Nat.lt_trichotomy i front.length with hi | rfl | hi
    · simp [List.getElem?_append_left, hi, Nat.ne_of_lt hi]
    · simp
    · rw [List.getElem?_eq_none (by simp; omega), List.getElem?_eq_none (by simp; omega)]
      rfl

theorem mapM_packets?_audioPages (serial : UInt32) (pages : List AudioPage) :
    (audioPages serial pages).mapM Page.packets? = some (pages.map AudioPage.packets) := by
  have hpage (flags : UInt8) (a : AudioPage) : (a.page serial flags).packets? = some a.packets :=
    Page.packets?_ofPackets ..
  have hfront (front : List AudioPage) :
      (front.map fun a => a.page serial 0).mapM Page.packets?
        = some (front.map AudioPage.packets) := by
    simp only [List.mapM_map, Function.comp_def, hpage]
    exact List.mapM_pure
  rcases List.eq_nil_or_concat pages with rfl | ⟨front, last, rfl⟩
  · rfl
  · simp [audioPages, List.mapM_append, hfront, hpage]

@[simp] theorem length_audioPages (serial : UInt32) (pages : List AudioPage) :
    (audioPages serial pages).length = pages.length := by
  rcases List.eq_nil_or_concat pages with rfl | ⟨front, last, rfl⟩
  · rfl
  · simp [audioPages]

end Ogg

end Transmux
