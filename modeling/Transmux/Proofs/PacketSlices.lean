import Transmux.Proofs.BlockFindings
import Transmux.Proofs.StrictPolicy
import Transmux.Proofs.VisitedElements

/-! Packets as parts of the input. Each is the end of the block that holds it, and a block starts
behind the packet before it, so that no byte is in two packets and each packet costs at least six
bytes that are in none. -/

namespace Transmux

/-- Where the packet of a block lies in the input. -/
structure PacketPlace where
  /-- The element that holds the packet. -/
  block : Extent
  offset : Nat
  length : Nat
deriving DecidableEq

namespace PacketPlace

def stop (p : PacketPlace) : Nat :=
  p.offset + p.length

def slice (input : Bytes) (p : PacketPlace) : Bytes :=
  (input.drop p.offset).take p.length

/-- Whether a byte of the input is in a packet. -/
def Covers (p : PacketPlace) (i : Nat) : Prop :=
  p.offset ≤ i ∧ i < p.stop

instance (p : PacketPlace) (i : Nat) : Decidable (p.Covers i) :=
  inferInstanceAs (Decidable (_ ∧ _))

/-- A packet at the end of a block that the walk comes to. The header of the element takes two bytes
at least, and what the block has in front of its data four. -/
structure InBlock (input : Bytes) (p : PacketPlace) : Prop where
  block_read : ∃ id data, .leaf id p.block data ∈ Event.ofBytes input ∧ id.isBlock = true
  length_pos : 0 < p.length
  offset_ge : p.block.offset + 6 ≤ p.offset
  stop_eq : p.stop = p.block.stop
  stop_le : p.stop ≤ input.length

variable {ps : List PacketPlace}

/-- No byte is in two packets that lie one behind the other. -/
theorem countP_covers_le_one (hpair : ps.Pairwise fun p q => p.stop ≤ q.offset) (i : Nat) :
    ps.countP (fun p => p.Covers i) ≤ 1 := by
  induction ps with
  | nil => exact Nat.zero_le 1
  | cons p ps ih =>
    obtain ⟨hlater, hrest⟩ := List.pairwise_cons.1 hpair
    by_cases hp : p.Covers i
    · have hnone : ps.countP (fun q => q.Covers i) = 0 := by
        rw [List.countP_eq_zero]
        intro q hq hcovers
        have hle := hlater q hq
        have hfrom := (of_decide_eq_true hcovers).1
        have hto := hp.2
        omega
      simp [hp, hnone]
    · simpa [hp] using ih hrest

/-- Packets share the bytes from a cursor on with six bytes in front of each of them. -/
theorem sum_length_le {cursor total : Nat} (hle : cursor ≤ total)
    (hpair : ps.Pairwise fun p q => p.stop ≤ q.block.offset)
    (hcursor : ∀ p ∈ ps, cursor ≤ p.block.offset)
    (hplaces : ∀ p ∈ ps, p.block.offset + 6 ≤ p.offset ∧ p.stop ≤ total) :
    cursor + ((ps.map length).sum + 6 * ps.length) ≤ total := by
  induction ps generalizing cursor with
  | nil => simpa using hle
  | cons p ps ih =>
    obtain ⟨hlater, hrest⟩ := List.pairwise_cons.1 hpair
    obtain ⟨hfirst, hothers⟩ := List.forall_mem_cons.1 hplaces
    have hstart := hcursor p List.mem_cons_self
    have hstop : p.stop = p.offset + p.length := rfl
    have hsum := ih hfirst.2 hrest hlater hothers
    rw [List.map_cons, List.sum_cons, List.length_cons]
    omega

end PacketPlace

namespace Event

/-- A leaf is told with the bytes that stand at its place. -/
theorem leafData_span {input : Bytes} (parent : ElementId) (depth : Nat) (bytes : Bytes)
    (offset room : Nat) (hbytes : bytes = input.drop offset) {id : ElementId} {place : Extent}
    {data : Bytes} (h : .leaf id place data ∈ span parent depth bytes offset room) :
    data = (input.drop place.contentOffset).take place.content := by
  fun_induction span parent depth bytes offset room with
  | case1 => cases h
  | case2 => simp at h
  | case3 => simp at h
  | case4 => simp at h
  | case5 parent depth bytes offset room hne header hread hlong size place' content hmaster hdepth
      ihinner ihrest =>
    have hcontent : content = input.drop place'.contentOffset := place'.drop_header hbytes
    rw [List.mem_cons, List.mem_append, List.mem_cons] at h
    rcases h with henter | hinner | hleave | hrest
    · cases henter
    · exact ihinner hcontent hinner
    · cases hleave
    · exact ihrest (place'.drop_content hcontent) hrest
  | case6 parent depth bytes offset room hne header hread hlong size place' content hleaf ihrest =>
    have hcontent : content = input.drop place'.contentOffset := place'.drop_header hbytes
    rcases List.mem_cons.1 h with hfirst | hrest
    · obtain ⟨-, hplace, hdata⟩ := Event.leaf.inj hfirst
      rw [hplace, hdata, hcontent]
    · exact ihrest (place'.drop_content hcontent) hrest

theorem leafData_ofBytes {input : Bytes} {id : ElementId} {place : Extent} {data : Bytes}
    (h : .leaf id place data ∈ ofBytes input) :
    data = (input.drop place.contentOffset).take place.content := by
  rw [ofBytes_eq_span] at h
  exact leafData_span root 0 input 0 input.length rfl h

theorem mem_visited_of_leaf {events : List Event} {id : ElementId} {place : Extent} {data : Bytes}
    (h : .leaf id place data ∈ events) : place ∈ visited events :=
  List.mem_filterMap.2 ⟨_, h, rfl⟩

/-- An id and a size take a byte each. -/
theorem Traverses.two_le_header {depth cursor stop : Nat} {events : List Event}
    (h : Traverses depth cursor stop events) {place : Extent} (hplace : place ∈ visited events) :
    2 ≤ place.header := by
  have hheader {cursor stop : Nat} {first : Extent} (hfirst : first.VisitedAt cursor stop) :
      2 ≤ first.header := by
    have hlt := hfirst.cursor_lt
    rw [← hfirst.offset_eq, Extent.contentOffset] at hlt
    omega
  induction h with
  | finished => cases hplace
  | stopped => cases hplace
  | leaf hfirst _ _ ih =>
    rcases List.mem_cons.1 hplace with rfl | hrest
    · exact hheader hfirst
    · exact ih hrest
  | master _ hfirst _ _ ihinner ihrest =>
    rw [visited_enter, visited_append, visited_leave, List.mem_cons, List.mem_append] at hplace
    rcases hplace with rfl | hinner | hrest
    · exact hheader hfirst
    · exact ihinner hinner
    · exact ihrest hrest

end Event

namespace Block

/-- The number of the track takes a byte, the time two, and the flags one. -/
theorem four_le_length {payload : Bytes} {b : Block} (h : read? payload = some b) :
    b.data.length + 4 ≤ payload.length := by
  obtain ⟨track, -, hlength⟩ := length_eq h
  have hpos := track.width_pos
  omega

end Block

namespace Finding

/-- The data of a block is the end of what its element holds. -/
def packetPlace? : Finding → Option PacketPlace
  | .block place (.kept b) => some ⟨place, place.stop - b.data.length, b.data.length⟩
  | _ => none

end Finding

namespace Recording

/-- Where the packets of the stream lie, in document order. -/
def packetPlaces (r : Recording) : List PacketPlace :=
  r.findings.filterMap Finding.packetPlace?

variable {filter : Bool} {input : Bytes}

theorem packetPlace_of_kept {place : Extent} {b : Block}
    (h : .block place (.kept b) ∈ (ofBytes filter input).findings) :
    PacketPlace.InBlock input ⟨place, place.stop - b.data.length, b.data.length⟩
      ∧ PacketPlace.slice input ⟨place, place.stop - b.data.length, b.data.length⟩ = b.data := by
  rw [ofBytes, ofEvents_eq] at h
  obtain ⟨id, data, hleaf, hblock, before, hfate⟩ := Context.blockLeaf_mem_tells filter {} h
  obtain ⟨hread, hne⟩ := Context.fate_eq_kept hfate
  have hdata := Event.leafData_ofBytes hleaf
  have hvisited := Event.mem_visited_of_leaf hleaf
  have hwalk := Event.traverses_ofBytes input
  have hheader := hwalk.two_le_header hvisited
  obtain ⟨-, hcontent, hstop⟩ := hwalk.mem_visited hvisited
  have hplace : place.stop = place.offset + place.header + place.content := rfl
  have hstart : place.contentOffset = place.offset + place.header := rfl
  have hlength : data.length = place.content := by
    rw [hdata]
    apply List.length_take_of_le
    rw [List.length_drop]
    omega
  have hfour := Block.four_le_length hread
  obtain ⟨front, hsuffix⟩ := Block.data_suffix hread
  have hfront : front.length + b.data.length = place.content := by
    rw [← hlength, ← hsuffix, List.length_append]
  constructor
  · exact ⟨⟨id, data, hleaf, hblock⟩, List.length_pos_iff.2 hne, by dsimp only; omega,
      Nat.sub_add_cancel (by omega), by rw [PacketPlace.stop]; dsimp only; omega⟩
  · have hoffset : place.stop - b.data.length = place.contentOffset + front.length := by omega
    calc (input.drop (place.stop - b.data.length)).take b.data.length
        = ((input.drop place.contentOffset).take place.content).drop front.length := by
          rw [hoffset, List.drop_take, List.drop_drop, ← hfront, Nat.add_sub_cancel_left]
      _ = (front ++ b.data).drop front.length := by rw [← hdata, hsuffix]
      _ = b.data := List.drop_left

theorem packetPlace_of_mem {f : Finding} {p : PacketPlace}
    (hf : f ∈ (ofBytes filter input).findings) (hp : f.packetPlace? = some p) :
    p.InBlock input ∧ frame? f = some (p.slice input) ∧ f.place? = some p.block := by
  cases f with
  | block place fate =>
    cases fate with
    | kept b =>
      obtain rfl := Option.some.inj hp
      obtain ⟨hin, hslice⟩ := packetPlace_of_kept hf
      exact ⟨hin, congrArg some hslice.symm, rfl⟩
    | _ => cases hp
  | _ => cases hp

theorem frame?_eq_map_slice {f : Finding} (hf : f ∈ (ofBytes filter input).findings) :
    frame? f = f.packetPlace?.map (PacketPlace.slice input) := by
  cases hp : f.packetPlace? with
  | some p => exact (packetPlace_of_mem hf hp).2.1
  | none =>
    cases f with
    | block place fate =>
      cases fate with
      | kept b => cases hp
      | _ => rfl
    | _ => rfl

theorem frames_eq_slices (filter : Bool) (input : Bytes) :
    (ofBytes filter input).frames
      = (ofBytes filter input).packetPlaces.map (PacketPlace.slice input) := by
  rw [frames, packetPlaces, List.map_filterMap]
  exact List.filterMap_congr fun f hf => frame?_eq_map_slice hf

theorem inBlock_of_mem_packetPlaces {p : PacketPlace}
    (h : p ∈ (ofBytes filter input).packetPlaces) : p.InBlock input := by
  obtain ⟨f, hf, hp⟩ := List.mem_filterMap.1 h
  exact (packetPlace_of_mem hf hp).1

/-- The element of a block starts behind all packets before it. -/
theorem pairwise_packetPlaces (filter : Bool) (input : Bytes) :
    (ofBytes filter input).packetPlaces.Pairwise fun p q => p.stop ≤ q.block.offset := by
  have hplaces := List.pairwise_filterMap.1 (pairwise_places filter input)
  refine List.pairwise_filterMap.2 (hplaces.imp_of_mem ?_)
  intro f g hf hg hfg p hp q hq
  obtain ⟨hin, -, hplace⟩ := packetPlace_of_mem hf hp
  obtain ⟨-, -, hplace'⟩ := packetPlace_of_mem hg hq
  rw [hin.stop_eq]
  exact hfg _ hplace _ hplace'

theorem map_length_frames (filter : Bool) (input : Bytes) :
    (ofBytes filter input).frames.map List.length
      = (ofBytes filter input).packetPlaces.map PacketPlace.length := by
  rw [frames_eq_slices, List.map_map]
  refine List.map_congr_left fun p hp => ?_
  have hstop : p.offset + p.length ≤ input.length := (inBlock_of_mem_packetPlaces hp).stop_le
  apply List.length_take_of_le
  rw [List.length_drop]
  omega

theorem sum_length_frames_le (filter : Bool) (input : Bytes) :
    ((ofBytes filter input).frames.map List.length).sum + 6 * (ofBytes filter input).frames.length
      ≤ input.length := by
  have hcount : (ofBytes filter input).frames.length
      = (ofBytes filter input).packetPlaces.length := by
    rw [frames_eq_slices, List.length_map]
  have hsum := PacketPlace.sum_length_le (Nat.zero_le input.length)
    (pairwise_packetPlaces filter input) (fun p _ => Nat.zero_le p.block.offset)
    (fun p hp => ⟨(inBlock_of_mem_packetPlaces hp).offset_ge,
      (inBlock_of_mem_packetPlaces hp).stop_le⟩)
  rwa [map_length_frames, hcount, ← Nat.zero_add (_ + _)]

/-- The packets of an input, however damaged it is, are parts of it that share no byte. They lie in
the order in which they are told, each ends before the block of the next one begins, and six bytes
of the input go with each of them. -/
theorem frames_are_disjoint_slices (filter : Bool) (input : Bytes) :
    let r := ofBytes filter input
    r.frames = r.packetPlaces.map (PacketPlace.slice input)
      ∧ (∀ p ∈ r.packetPlaces, p.InBlock input)
      ∧ r.packetPlaces.Pairwise (fun p q => p.offset < q.offset ∧ p.stop ≤ q.block.offset)
      ∧ (∀ i, r.packetPlaces.countP (fun p => p.Covers i) ≤ 1)
      ∧ (r.frames.map List.length).sum + 6 * r.frames.length ≤ input.length := by
  intro r
  have hin : ∀ p ∈ r.packetPlaces, p.InBlock input := fun p hp => inBlock_of_mem_packetPlaces hp
  have hpair := pairwise_packetPlaces filter input
  have hoffset {p q : PacketPlace} (hq : q ∈ r.packetPlaces) (hpq : p.stop ≤ q.block.offset) :
      p.stop + 6 ≤ q.offset := by
    have hge := (hin q hq).offset_ge
    omega
  refine ⟨frames_eq_slices filter input, hin, ?_, ?_, sum_length_frames_le filter input⟩
  · refine hpair.imp_of_mem fun {p q} _ hq hpq => ⟨?_, hpq⟩
    have hle := hoffset hq hpq
    rw [PacketPlace.stop] at hle
    omega
  · refine PacketPlace.countP_covers_le_one (hpair.imp_of_mem fun {p q} _ hq hpq => ?_)
    exact Nat.le_of_add_right_le (hoffset hq hpq)

/-- A group of unknown size with two blocks, the last of which claims more bytes than there are. -/
def looseGroup : Bytes :=
  [0xA0, 0xFF, 0xA3, 0x85, 0x81, 0x00, 0x00, 0x80, 0xFC, 0xA3, 0x40, 0xFF, 0x81, 0x00, 0x00, 0x80,
    0xFC, 0x01]

theorem frames_are_disjoint_slices_looseGroup :
    (ofBytes true looseGroup).packetPlaces = [⟨⟨2, 2, 5⟩, 8, 1⟩, ⟨⟨9, 3, 6⟩, 16, 2⟩]
      ∧ (ofBytes true looseGroup).frames = [[0xFC], [0xFC, 0x01]]
      ∧ (⟨⟨9, 3, 6⟩, 16, 2⟩ : PacketPlace).InBlock looseGroup
      ∧ 3 + 6 * 2 ≤ looseGroup.length := by
  have hplaces : (ofBytes true looseGroup).packetPlaces
      = [⟨⟨2, 2, 5⟩, 8, 1⟩, ⟨⟨9, 3, 6⟩, 16, 2⟩] := by decide +kernel
  obtain ⟨hframes, hin, -, -, hsum⟩ := frames_are_disjoint_slices true looseGroup
  rw [hplaces] at hframes hin
  rw [hframes] at hsum
  exact ⟨hplaces, hframes, hin _ (by simp), hsum⟩

end Recording

end Transmux
