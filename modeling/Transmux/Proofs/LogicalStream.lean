import Mathlib.Tactic.SplitIfs
import Transmux.Proofs.PageReading

/-! Logical streams: pages of one serial, numbered from zero, of which the first begins the stream,
the last ends it, and each holds whole packets only. -/

namespace Transmux.Ogg

namespace Page

/-- What the page at one place of a stream of so many pages has to be. -/
structure Placed (serial : UInt32) (count i : Nat) (p : Page) : Prop where
  sequence_eq : p.sequence.toNat = i
  serial_eq : p.serial = serial
  version_eq : p.version = 0
  beginning_iff : p.hasFlag beginning = true ↔ i = 0
  ending_iff : p.hasFlag ending = true ↔ i + 1 = count
  not_continued : p.hasFlag continued = false
  segments_pos : 1 ≤ p.segments.length
  segments_le : p.segments.length ≤ 255
  total_eq : SegmentTable.total p.segments = p.body.length
  /-- The last packet ends on the page. -/
  terminated : p.segments.getLast? ≠ some 255
  checksum_valid : p.checksumValid = true

def flagsAt (count i : Nat) : UInt8 :=
  if i = 0 then beginning else if i + 1 = count then ending else 0

theorem flagsAt_beginning (count i : Nat) :
    (flagsAt count i &&& beginning != 0) = true ↔ i = 0 := by
  unfold flagsAt
  split_ifs with hfirst hlast
  · exact iff_of_true (by decide) hfirst
  · exact iff_of_false (by decide) hfirst
  · exact iff_of_false (by decide) hfirst

theorem flagsAt_ending {count : Nat} (hcount : 1 < count) (i : Nat) :
    (flagsAt count i &&& ending != 0) = true ↔ i + 1 = count := by
  unfold flagsAt
  split_ifs with hfirst hlast
  · exact iff_of_false (by decide) (by omega)
  · exact iff_of_true (by decide) hlast
  · exact iff_of_false (by decide) hlast

theorem flagsAt_continued (count i : Nat) : (flagsAt count i &&& continued != 0) = false := by
  unfold flagsAt
  split_ifs <;> rfl

/-- A page made from packets that fit on it stands where its flags and its number say. -/
theorem placed_ofPackets {serial : UInt32} {count i : Nat} {packets : List Bytes}
    (granule : UInt64) (hcount : 1 < count) (hi : i < 2 ^ 32) (hne : packets ≠ [])
    (hfit : SegmentTable.countAll packets ≤ SegmentTable.maxLength) :
    (ofPackets (flagsAt count i) granule serial (UInt32.ofNat i) packets).Placed serial
      count i where
  sequence_eq := by
    change (UInt32.ofNat i).toNat = i
    rw [UInt32.toNat_ofNat', Nat.mod_eq_of_lt hi]
  serial_eq := rfl
  version_eq := rfl
  beginning_iff := flagsAt_beginning count i
  ending_iff := flagsAt_ending hcount i
  not_continued := flagsAt_continued count i
  segments_pos := by
    obtain ⟨packet, rest, rfl⟩ := List.exists_cons_of_ne_nil hne
    have hpos := SegmentTable.count_pos packet.length
    simp only [length_segments_ofPackets, SegmentTable.countAll, List.map_cons, List.sum_cons]
    omega
  segments_le := by
    rw [length_segments_ofPackets]
    exact hfit
  total_eq := total_segments_ofPackets ..
  terminated := SegmentTable.getLast?_ofLengths_ne _
  checksum_valid := checksumValid_ofPackets ..

end Page

/-- One logical stream that starts with two header packets on pages of their own. -/
structure LogicalStream (serial : UInt32) (head tags : Bytes) (pages : List Page) : Prop where
  three_le_length : 3 ≤ pages.length
  placed : ∀ (i : Nat) (p : Page), pages[i]? = some p → p.Placed serial pages.length i
  head_eq : pages[0]?.bind Page.packets? = some [head]
  tags_eq : pages[1]?.bind Page.packets? = some [tags]

end Transmux.Ogg
