import Transmux.Proofs.SpanEvents

/-! Where the leaves of a span lie: inside the span, one behind the other, and each told with the
bytes that stand there. -/

namespace Transmux.Event

def leafPlace? : Event → Option Extent
  | .leaf _ place _ => some place
  | _ => none

/-- A leaf that lies in the next `room` bytes, which start at `offset`. -/
structure LeafWithin (bytes : Bytes) (offset room : Nat) (place : Extent) (data : Bytes) :
    Prop where
  start_le : offset ≤ place.offset
  header_pos : 0 < place.header
  stop_le : place.stop ≤ offset + room
  length_eq : data.length = place.content
  data_slice : data <:+: bytes.take room

theorem slice_take {bytes : Bytes} {skip size room : Nat} (h : skip + size ≤ room) :
    (bytes.drop skip).take size <:+: bytes.take room := by
  have hcut : (bytes.drop skip).take size = ((bytes.take room).drop skip).take size := by
    rw [List.drop_take, List.take_take, Nat.min_eq_left (by omega)]
  rw [hcut]
  exact (List.take_prefix ..).isInfix.trans (List.drop_suffix ..).isInfix

theorem LeafWithin.widen {bytes data : Bytes} {offset skip size room : Nat} {place : Extent}
    (h : LeafWithin (bytes.drop skip) (offset + skip) size place data) (hfit : skip + size ≤ room) :
    LeafWithin bytes offset room place data where
  start_le := Nat.le_trans (Nat.le_add_right ..) h.start_le
  header_pos := h.header_pos
  stop_le := Nat.le_trans h.stop_le (by omega)
  length_eq := h.length_eq
  data_slice := h.data_slice.trans (slice_take hfit)

theorem leafWithin_span (parent : ElementId) (depth : Nat) (bytes : Bytes) (offset room : Nat)
    (hroom : room ≤ bytes.length) {id : ElementId} {place : Extent} {data : Bytes}
    (h : .leaf id place data ∈ span parent depth bytes offset room) :
    LeafWithin bytes offset room place data := by
  fun_induction span parent depth bytes offset room with
  | case1 => cases h
  | case2 => simp at h
  | case3 => simp at h
  | case4 => simp at h
  | case5 parent depth bytes offset room hne header hread hlong size place' content hmaster hdepth
      ihinner ihrest =>
    have hsize : size ≤ room - header.length := header.contentLength_le _
    have hcontent : content.length = bytes.length - header.length := List.length_drop
    rw [List.mem_cons, List.mem_append, List.mem_cons] at h
    rcases h with henter | hinner | hleave | hrest
    · cases henter
    · exact (ihinner (by omega) hinner).widen (by omega)
    · cases hleave
    · have hwithin := ihrest (by rw [List.length_drop]; omega) hrest
      have hstop : place'.stop = offset + (header.length + size) := Nat.add_assoc ..
      rw [List.drop_drop, hstop] at hwithin
      exact hwithin.widen (by omega)
  | case6 parent depth bytes offset room hne header hread hlong size place' content hleaf ihrest =>
    have hsize : size ≤ room - header.length := header.contentLength_le _
    have hcontent : content.length = bytes.length - header.length := List.length_drop
    rcases List.mem_cons.1 h with hfirst | hrest
    · obtain ⟨-, hplace, hdata⟩ := Event.leaf.inj hfirst
      have hstop : place'.stop = offset + (header.length + size) := Nat.add_assoc ..
      rw [hplace, hdata]
      exact ⟨Nat.le_refl _, header.length_pos, by omega, List.length_take_of_le (by omega),
        slice_take (by omega)⟩
    · have hwithin := ihrest (by rw [List.length_drop]; omega) hrest
      have hstop : place'.stop = offset + (header.length + size) := Nat.add_assoc ..
      rw [List.drop_drop, hstop] at hwithin
      exact hwithin.widen (by omega)

theorem mem_leafPlaces {events : List Event} {place : Extent}
    (h : place ∈ events.filterMap leafPlace?) : ∃ id data, .leaf id place data ∈ events := by
  obtain ⟨e, he, hplace⟩ := List.mem_filterMap.1 h
  cases e with
  | leaf id place' data =>
    obtain rfl : place' = place := Option.some.inj hplace
    exact ⟨id, data, he⟩
  | enter => cases hplace
  | leave => cases hplace
  | stopped => cases hplace

/-- All leaves lie in this part of the input. -/
def LeavesIn (start stop : Nat) (events : List Event) : Prop :=
  ∀ place ∈ events.filterMap leafPlace?,
    start ≤ place.offset ∧ place.offset < place.stop ∧ place.stop ≤ stop

namespace LeavesIn

variable {start stop : Nat} {e : Event} {a b : List Event}

theorem nil : LeavesIn start stop [] := by
  intro place hplace
  cases hplace

theorem cons (he : e.leafPlace? = none) (ha : LeavesIn start stop a) :
    LeavesIn start stop (e :: a) := by
  intro place hplace
  rw [List.filterMap_cons_none he] at hplace
  exact ha place hplace

theorem append (ha : LeavesIn start stop a) (hb : LeavesIn start stop b) :
    LeavesIn start stop (a ++ b) := by
  intro place hplace
  rw [List.filterMap_append, List.mem_append] at hplace
  exact hplace.elim (ha place) (hb place)

theorem mono {start' stop' : Nat} (ha : LeavesIn start stop a) (hstart : start' ≤ start)
    (hstop : stop ≤ stop') : LeavesIn start' stop' a := by
  intro place hplace
  obtain ⟨hfrom, hlt, hto⟩ := ha place hplace
  exact ⟨Nat.le_trans hstart hfrom, hlt, Nat.le_trans hto hstop⟩

theorem span (parent : ElementId) (depth : Nat) (bytes : Bytes) (offset room : Nat)
    (hroom : room ≤ bytes.length) :
    LeavesIn offset (offset + room) (Event.span parent depth bytes offset room) := by
  intro place hplace
  obtain ⟨id, data, hleaf⟩ := mem_leafPlaces hplace
  have hwithin := leafWithin_span parent depth bytes offset room hroom hleaf
  have hheader := hwithin.header_pos
  refine ⟨hwithin.start_le, ?_, hwithin.stop_le⟩
  rw [Extent.stop, Extent.contentOffset]
  omega

end LeavesIn

/-- Leaves are told in the order in which they lie. -/
theorem pairwise_leafPlaces_span (parent : ElementId) (depth : Nat) (bytes : Bytes)
    (offset room : Nat) (hroom : room ≤ bytes.length) :
    ((span parent depth bytes offset room).filterMap leafPlace?).Pairwise
      fun a b => a.stop ≤ b.offset := by
  fun_induction span parent depth bytes offset room with
  | case1 => exact .nil
  | case2 => exact .nil
  | case3 => exact .nil
  | case4 => exact .nil
  | case5 parent depth bytes offset room hne header hread hlong size place content hmaster hdepth
      ihinner ihrest =>
    have hsize : size ≤ room - header.length := header.contentLength_le _
    have hcontent : content.length = bytes.length - header.length := List.length_drop
    have hdropped : room - header.length - size ≤ (content.drop size).length := by
      rw [List.length_drop]
      omega
    rw [List.filterMap_cons_none rfl, List.filterMap_append, List.filterMap_cons_none rfl,
      List.pairwise_append]
    refine ⟨ihinner (by omega), ihrest hdropped, fun a ha b hb => ?_⟩
    obtain ⟨ida, dataa, hleafa⟩ := mem_leafPlaces ha
    obtain ⟨idb, datab, hleafb⟩ := mem_leafPlaces hb
    have hbefore := (leafWithin_span _ _ _ _ _ (by omega) hleafa).stop_le
    have hbehind := (leafWithin_span _ _ _ _ _ hdropped hleafb).start_le
    exact Nat.le_trans hbefore hbehind
  | case6 parent depth bytes offset room hne header hread hlong size place content hleaf ihrest =>
    have hsize : size ≤ room - header.length := header.contentLength_le _
    have hcontent : content.length = bytes.length - header.length := List.length_drop
    have hdropped : room - header.length - size ≤ (content.drop size).length := by
      rw [List.length_drop]
      omega
    refine List.pairwise_cons.2 ⟨fun b hb => ?_, ihrest hdropped⟩
    obtain ⟨id, data, hleafb⟩ := mem_leafPlaces hb
    exact (leafWithin_span _ _ _ _ _ hdropped hleafb).start_le

end Transmux.Event
