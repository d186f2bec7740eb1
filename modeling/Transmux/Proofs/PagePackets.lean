import Transmux.Proofs.CheckedWalk
import Transmux.Proofs.PageReading

/-! Packets against the segment table of their page. Splitting a body at a table and making a table
from lengths undo each other, whoever has written the table, but for the end that a table may leave
to the next page. -/

namespace Transmux.Ogg

namespace SegmentTable

/-- The table with an end for its last packet. -/
def ended (table : SegmentTable) : SegmentTable :=
  if table.getLast? = some 255 then table ++ [0] else table

theorem ended_append_cons {v : UInt8} (hv : v < 255) (front table : SegmentTable) :
    ended (front ++ v :: table) = front ++ v :: ended table := by
  have hne : v ≠ 255 := fun h => absurd hv (by rw [h]; decide)
  have hlast : (front ++ v :: table).getLast? = some 255 ↔ table.getLast? = some 255 := by
    rw [List.getLast?_append, List.getLast?_cons, Option.some_or]
    cases table.getLast? with
    | none => simp [hne]
    | some w => simp
  simp only [ended, hlast]
  split
  · rw [List.append_assoc, List.cons_append]
  · rfl

theorem values_eq {v : UInt8} (hv : v < 255) (k : Nat) :
    values (255 * k + v.toNat) = List.replicate k 255 ++ [v] := by
  rw [UInt8.lt_iff_toNat_lt] at hv
  change v.toNat < 255 at hv
  have hfull : (255 * k + v.toNat) / 255 = k := by omega
  have hlast : (255 * k + v.toNat) % 255 = v.toNat := by omega
  rw [values, hfull, hlast, UInt8.ofNat_toNat]

theorem ended_replicate {k : Nat} (hk : k ≠ 0) :
    ended (List.replicate k 255) = values (255 * k) := by
  have hzero := values_eq (v := 0) (by decide) k
  rw [ended, List.getLast?_replicate, if_neg hk, if_pos rfl]
  exact hzero.symm

/-- Values of 255 that have been read stand for the bytes of the packet that is open. -/
theorem ofLengths_lengthsAfter (k : Nat) (table : SegmentTable) :
    ofLengths (lengthsAfter (255 * k) table) = ended (List.replicate k 255 ++ table) := by
  induction table generalizing k with
  | nil =>
    rw [List.append_nil, lengthsAfter]
    by_cases hk : k = 0
    · subst hk
      rfl
    · rw [if_neg (by omega), ended_replicate hk, ofLengths_cons]
      exact List.append_nil _
  | cons v table ih =>
    rw [lengthsAfter]
    by_cases hv : v < 255
    · have hrest : ofLengths (lengthsAfter 0 table) = ended table := ih 0
      rw [if_pos hv, ofLengths_cons, hrest, values_eq hv, ended_append_cons hv, List.append_assoc,
        List.singleton_append]
    · obtain rfl := eq_of_not_lt hv
      have hnext : 255 * k + 255 = 255 * (k + 1) := by omega
      rw [if_neg hv, hnext, ih, List.replicate_succ', List.append_assoc, List.singleton_append]

theorem ofLengths_lengths (table : SegmentTable) : ofLengths table.lengths = table.ended := by
  have hall := ofLengths_lengthsAfter 0 table
  rwa [List.replicate_zero, List.nil_append] at hall

theorem countP_values (n : Nat) : (values n).countP (· < 255) = 1 := by
  have hlast := last_value_lt n
  simp [values, List.countP_append, List.countP_replicate, hlast]

/-- Every packet has one value that ends it. -/
theorem countP_ofLengths (lengths : List Nat) :
    (ofLengths lengths).countP (· < 255) = lengths.length := by
  induction lengths with
  | nil => rfl
  | cons n lengths ih =>
    rw [ofLengths_cons, List.countP_append, countP_values, ih, List.length_cons, Nat.add_comm]

theorem length_lengths (table : SegmentTable) :
    table.lengths.length
      = table.countP (· < 255) + if table.getLast? = some 255 then 1 else 0 := by
  rw [← countP_ofLengths, ofLengths_lengths, ended]
  split
  · rw [List.countP_append]
    rfl
  · rfl

/-- Packets as slices of a body, the way a machine takes them: `start` is where the packet begins
that is open, and `pos` where the values read so far end. -/
def slices (body : Bytes) (start pos : Nat) : SegmentTable → Except Fault (List Bytes)
  | [] => do
    if start < pos then
      let packet ← body.slice start pos
      return [packet]
    else return []
  | v :: table => do
    if v < 255 then
      let packet ← body.slice start (pos + v.toNat)
      let packets ← slices body (pos + v.toNat) (pos + v.toNat) table
      return packet :: packets
    else slices body start (pos + v.toNat) table

theorem split?_drop {body : Bytes} {start stop : Nat} (hle : start ≤ stop)
    (hbody : start ≤ body.length) :
    Bytes.split? (stop - start) (body.drop start)
      = if stop ≤ body.length then some ((body.drop start).take (stop - start), body.drop stop)
        else none := by
  have hrest : start + (stop - start) = stop := by omega
  rw [Bytes.split?_eq, List.length_drop, List.drop_drop, hrest]
  exact if_congr (by omega) rfl rfl

/-- A packet is out of range just if the body is shorter than the lengths up to it tell. -/
theorem slices_eq (table : SegmentTable) {body : Bytes} {start pos : Nat} (hle : start ≤ pos)
    (hbody : start ≤ body.length) :
    slices body start pos table
      = (cut? (lengthsAfter (pos - start) table) (body.drop start)).elim (.error .outOfRange)
        .ok := by
  induction table generalizing start pos with
  | nil =>
    rw [slices, lengthsAfter]
    by_cases hopen : start < pos
    · rw [if_pos hopen, if_neg (by omega), cut?, split?_drop hle hbody]
      by_cases hstop : pos ≤ body.length
      · rw [Bytes.slice_eq_ok hle hstop, if_pos hstop]
        rfl
      · rw [Bytes.slice, if_neg fun h => hstop h.2, if_neg hstop]
        rfl
    · rw [if_neg hopen, if_pos (by omega)]
      rfl
  | cons v table ih =>
    rw [slices, lengthsAfter]
    by_cases hv : v < 255
    · have hlength : pos - start + v.toNat = pos + v.toNat - start := by omega
      have hle' : start ≤ pos + v.toNat := by omega
      rw [if_pos hv, if_pos hv, hlength, cut?, split?_drop hle' hbody]
      by_cases hstop : pos + v.toNat ≤ body.length
      · rw [Bytes.slice_eq_ok hle' hstop, if_pos hstop, ok_bind, ih (Nat.le_refl _) hstop,
          Nat.sub_self]
        dsimp only
        cases cut? (lengthsAfter 0 table) (body.drop (pos + v.toNat)) <;> rfl
      · rw [Bytes.slice, if_neg fun h => hstop h.2, if_neg hstop]
        rfl
    · obtain rfl := eq_of_not_lt hv
      have hpending : pos + (255 : UInt8).toNat - start = pos - start + 255 :=
        Nat.sub_add_comm hle
      rw [if_neg hv, if_neg hv, ih (Nat.le_trans hle (Nat.le_add_right ..)) hbody, hpending]

end SegmentTable

namespace Page

/-- The packets of a page as slices of its body. -/
def slices (p : Page) : Except Fault (List Bytes) :=
  SegmentTable.slices p.body 0 0 p.segments

theorem slices_eq (p : Page) : p.slices = p.packets?.elim (.error .outOfRange) .ok :=
  SegmentTable.slices_eq p.segments (Nat.le_refl 0) (Nat.zero_le _)

theorem slices_eq_error_iff (p : Page) :
    p.slices = .error .outOfRange ↔ p.body.length < SegmentTable.total p.segments := by
  rw [slices_eq, ← SegmentTable.sum_lengths, ← SegmentTable.cut?_eq_none_iff, packets?]
  cases SegmentTable.cut? p.segments.lengths p.body <;> simp

end Page

/-- A page whose table describes its body is split without a slice out of range. Its packets make up
the body, each ends at a value below 255 or at the end of the table, and their lengths give the
table back, with an end for the last packet if it has none. A table made of lengths gives these
lengths back. -/
theorem packets_match_segments :
    (∀ p : Page, SegmentTable.total p.segments = p.body.length →
      ∃ packets, p.slices = .ok packets ∧ p.packets? = some packets ∧ packets.flatten = p.body
        ∧ packets.length = p.segments.countP (· < 255)
          + (if p.segments.getLast? = some 255 then 1 else 0)
        ∧ SegmentTable.ofLengths (packets.map List.length) = p.segments.ended)
    ∧ (∀ p : Page, p.slices = .error .outOfRange
      ↔ p.body.length < SegmentTable.total p.segments)
    ∧ ∀ lengths : List Nat,
      (SegmentTable.ofLengths lengths).length = (lengths.map SegmentTable.count).sum
        ∧ ∀ p : Page, p.segments = .ofLengths lengths → p.body.length = lengths.sum →
          ∃ packets, p.slices = .ok packets ∧ packets.flatten = p.body
            ∧ packets.map List.length = lengths := by
  have hsplit (p : Page) (h : SegmentTable.total p.segments = p.body.length) :
      ∃ packets, p.slices = .ok packets ∧ p.packets? = some packets ∧ packets.flatten = p.body
        ∧ packets.map List.length = p.segments.lengths := by
    obtain ⟨packets, hcut, hflat, hlengths⟩ :=
      SegmentTable.exists_cut?_eq_some ((SegmentTable.sum_lengths p.segments).trans h)
    exact ⟨packets, by rw [p.slices_eq, Page.packets?, hcut]; rfl, hcut, hflat, hlengths⟩
  refine ⟨fun p h => ?_, Page.slices_eq_error_iff, fun lengths => ⟨?_, fun p htable h => ?_⟩⟩
  · obtain ⟨packets, hslices, hpackets, hflat, hlengths⟩ := hsplit p h
    refine ⟨packets, hslices, hpackets, hflat, ?_, ?_⟩
    · rw [← SegmentTable.length_lengths, ← hlengths, List.length_map]
    · rw [hlengths, SegmentTable.ofLengths_lengths]
  · exact SegmentTable.length_ofLengths lengths
  · have htotal : SegmentTable.total p.segments = p.body.length := by
      rw [htable, SegmentTable.total_ofLengths, h]
    obtain ⟨packets, hslices, -, hflat, hlengths⟩ := hsplit p htotal
    refine ⟨packets, hslices, hflat, ?_⟩
    rw [hlengths, htable, SegmentTable.lengths_ofLengths]

/-- An empty packet, one that fills its segment, and one that goes on on the next page. -/
def unendedPage : Page where
  version := 0
  flags := Page.beginning
  granule := 0
  serial := 7
  sequence := 0
  checksum := 0
  segments := [0, 255, 0, 255]
  body := List.replicate 510 9

theorem packets_match_segments_unendedPage :
    (∃ packets, unendedPage.slices = .ok packets ∧ packets.flatten = List.replicate 510 9
      ∧ packets.length = 3
      ∧ SegmentTable.ofLengths (packets.map List.length) = [0, 255, 0, 255, 0])
    ∧ { unendedPage with segments := [0, 255, 0, 255, 1] }.slices = .error .outOfRange
    ∧ ∃ packets, { unendedPage with segments := [0, 255, 0, 255, 0] }.slices = .ok packets
      ∧ packets.map List.length = [0, 255, 255] := by
  obtain ⟨hsplit, hshort, hlengths⟩ := packets_match_segments
  obtain ⟨packets, hslices, -, hflat, hcount, htable⟩ := hsplit unendedPage (by decide +kernel)
  obtain ⟨-, hback⟩ := hlengths [0, 255, 255]
  obtain ⟨packets', hslices', -, hlengths'⟩ :=
    hback { unendedPage with segments := [0, 255, 0, 255, 0] } (by decide) (by decide +kernel)
  exact ⟨⟨packets, hslices, hflat, hcount, htable⟩, (hshort _).2 (by decide +kernel), packets',
    hslices', hlengths'⟩

end Transmux.Ogg
