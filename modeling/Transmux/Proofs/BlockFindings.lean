import Transmux.Proofs.SpanPlaces
import Transmux.Proofs.TruncatedRecording

/-! The blocks among what is found: each is told by a leaf and lies where the leaf lies, and its
packet is the end of what the leaf holds. -/

namespace Transmux

namespace Block

variable {payload : Bytes} {b : Block}

theorem read?_eq_some_iff :
    read? payload = some b ↔ ∃ track flags, Vint.read? payload = some track
      ∧ payload.drop (track.width + 2) = flags :: b.data
      ∧ track.value = b.track ∧ .ofFlags flags = b.lacing := by
  obtain ⟨number, lacing, data⟩ := b
  rw [read?]
  cases htrack : Vint.read? payload with
  | none => simp
  | some track =>
    cases hrest : payload.drop (track.width + 2) with
    | nil => simp [hrest]
    | cons flags rest => grind

/-- What stands in front of the data of a block: the number of its track, the time, the flags. -/
theorem length_eq (h : read? payload = some b) :
    ∃ track, Vint.read? payload = some track
      ∧ payload.length = track.width + 3 + b.data.length := by
  obtain ⟨track, flags, htrack, hrest, -, -⟩ := read?_eq_some_iff.1 h
  have hlength := congrArg List.length hrest
  rw [List.length_drop, List.length_cons] at hlength
  exact ⟨track, htrack, by omega⟩

theorem data_suffix (h : read? payload = some b) : b.data <:+ payload := by
  obtain ⟨track, flags, -, hrest, -, -⟩ := read?_eq_some_iff.1 h
  have hdata : b.data <:+ payload.drop (track.width + 2) := hrest ▸ List.suffix_cons flags b.data
  exact hdata.trans (List.drop_suffix ..)

/-- A block that loses a part of its data keeps the beginning of it. -/
theorem read?_take (h : read? payload = some b) {n : Nat}
    (hn : payload.length - b.data.length ≤ n) :
    read? (payload.take n)
      = some { b with data := b.data.take (n - (payload.length - b.data.length)) } := by
  obtain ⟨track, htrack, hlength⟩ := length_eq h
  obtain ⟨_, flags, htrack', hrest, hnumber, hlacing⟩ := read?_eq_some_iff.1 h
  obtain rfl := Option.some.inj (htrack.symm.trans htrack')
  obtain ⟨k, rfl⟩ : ∃ k, n = track.width + 2 + (k + 1) := ⟨n - (track.width + 3), by omega⟩
  have hk : track.width + 2 + (k + 1) - (payload.length - b.data.length) = k := by omega
  have hfront : Vint.read? (payload.take (track.width + 2 + (k + 1))) = some track := by
    have hsplit := List.take_append_drop (track.width + 2 + (k + 1)) payload
    rw [← hsplit] at htrack
    refine Vint.read?_of_add htrack ?_
    rw [List.length_take]
    omega
  have hkept : (payload.take (track.width + 2 + (k + 1))).drop (track.width + 2)
      = flags :: b.data.take k := by
    rw [List.drop_take, hrest, Nat.add_sub_cancel_left, List.take_succ_cons]
  rw [hk]
  exact read?_eq_some_iff.2 ⟨track, flags, hfront, hkept, hnumber, hlacing⟩

/-- A block that ends before its data starts is none. -/
theorem read?_take_eq_none (h : read? payload = some b) {n : Nat}
    (hn : n < payload.length - b.data.length) : read? (payload.take n) = none := by
  cases hread : read? (payload.take n) with
  | none => rfl
  | some short =>
    have hadd := read?_add hread (payload.drop n)
    rw [List.take_append_drop, h] at hadd
    have hdata := congrArg List.length (congrArg Block.data (Option.some.inj hadd))
    rw [List.length_append, List.length_drop] at hdata
    obtain ⟨track, -, hlength⟩ := length_eq h
    obtain ⟨track', -, hshort⟩ := length_eq hread
    rw [List.length_take] at hshort
    omega

theorem read?_take_of_none (h : read? payload = none) (n : Nat) :
    read? (payload.take n) = none := by
  cases hread : read? (payload.take n) with
  | none => rfl
  | some short =>
    have hadd := read?_add hread (payload.drop n)
    rw [List.take_append_drop, h] at hadd
    cases hadd

end Block

def Finding.place? : Finding → Option Extent
  | .block place _ => some place
  | _ => none

namespace Context

variable (filter : Bool) (c : Context)

theorem packets_append (a b : List Event) :
    c.packets filter (a ++ b) = c.packets filter a ++ (c.afterAll a).packets filter b := by
  rw [packets, tells_append, List.filterMap_append]
  rfl

theorem mem_tells {events : List Event} {f : Finding} (h : f ∈ c.tells filter events) :
    ∃ e ∈ events, ∃ before : Context, f ∈ before.findings filter e := by
  induction events generalizing c with
  | nil => cases h
  | cons e events ih =>
    rcases List.mem_append.1 h with hfirst | hrest
    · exact ⟨e, List.mem_cons_self, c, hfirst⟩
    · obtain ⟨e', he', hbefore⟩ := ih _ hrest
      exact ⟨e', List.mem_cons_of_mem e he', hbefore⟩

theorem blockLeaf_mem_tells {events : List Event} {place : Extent} {fate : Fate}
    (h : .block place fate ∈ c.tells filter events) :
    ∃ id data, .leaf id place data ∈ events ∧ id.isBlock = true
      ∧ ∃ before : Context, before.fate filter data = fate := by
  obtain ⟨e, he, before, hfinding⟩ := mem_tells filter c h
  cases e with
  | enter => cases hfinding
  | stopped issue =>
    have hissue := List.mem_singleton.1 hfinding
    cases hissue
  | leave id =>
    rcases mem_findings_leave filter before hfinding with ⟨_, _, hselected⟩ | ⟨_, htrack⟩
    · cases hselected
    · cases htrack
  | leaf id place' data =>
    rw [findings_leaf] at hfinding
    split at hfinding
    · next hblock =>
      obtain ⟨rfl, rfl⟩ := Finding.block.inj (List.mem_singleton.1 hfinding)
      exact ⟨id, data, he, hblock, before, rfl⟩
    · cases hfinding

theorem block_mem_tells {events : List Event} {place : Extent} {fate : Fate}
    (h : .block place fate ∈ c.tells filter events) :
    ∃ id data, .leaf id place data ∈ events
      ∧ ∃ before : Context, before.fate filter data = fate := by
  obtain ⟨id, data, hleaf, -, hbefore⟩ := blockLeaf_mem_tells filter c h
  exact ⟨id, data, hleaf, hbefore⟩

theorem places_findings (e : Event) :
    ((c.findings filter e).filterMap Finding.place?).Sublist e.leafPlace?.toList := by
  cases e with
  | enter => exact List.nil_sublist _
  | stopped => exact List.nil_sublist _
  | leave id =>
    have hnone : (c.findings filter (.leave id)).filterMap Finding.place? = [] := by
      refine List.filterMap_eq_nil_iff.2 fun f hf => ?_
      rcases mem_findings_leave filter c hf with ⟨_, _, rfl⟩ | ⟨_, rfl⟩ <;> rfl
    rw [hnone]
    exact List.nil_sublist _
  | leaf id place data =>
    rw [findings_leaf]
    split
    · exact List.Sublist.refl _
    · exact List.nil_sublist _

/-- Blocks are found in the order of the leaves that tell them. -/
theorem places_tells (events : List Event) :
    ((c.tells filter events).filterMap Finding.place?).Sublist
      (events.filterMap Event.leafPlace?) := by
  induction events generalizing c with
  | nil => exact List.Sublist.refl _
  | cons e events ih =>
    have hsplit : (e :: events).filterMap Event.leafPlace?
        = e.leafPlace?.toList ++ events.filterMap Event.leafPlace? := by
      cases e <;> rfl
    rw [tells, List.filterMap_append, hsplit]
    exact (places_findings filter c e).append (ih _)

variable {filter c}

theorem mem_leafPlaces_of_block {events : List Event} {place : Extent} {fate : Fate}
    (h : .block place fate ∈ c.tells filter events) :
    place ∈ events.filterMap Event.leafPlace? :=
  (places_tells filter c events).subset (List.mem_filterMap.2 ⟨_, h, rfl⟩)

theorem fate_eq_kept {payload : Bytes} {b : Block} (h : c.fate filter payload = .kept b) :
    Block.read? payload = some b ∧ b.data ≠ [] := by
  rw [fate] at h
  cases hread : Block.read? payload with
  | none => simp [hread] at h
  | some b' =>
    by_cases hdrop : c.drops filter b'.track = true
    · simp [hread, hdrop] at h
    · by_cases hempty : b'.data = []
      · simp [hread, hdrop, hempty] at h
      · obtain rfl : b' = b := by simpa [hread, hdrop, hempty] using h
        exact ⟨rfl, hempty⟩

/-- A packet is a part of what a leaf holds. -/
theorem slice_of_mem_packets {events : List Event} {packet : Bytes}
    (h : packet ∈ c.packets filter events) :
    ∃ id place data, .leaf id place data ∈ events ∧ packet <:+: data := by
  obtain ⟨f, hf, hframe⟩ := List.mem_filterMap.1 h
  cases f with
  | block place fate =>
    cases fate with
    | kept b =>
      obtain rfl : b.data = packet := Option.some.inj hframe
      obtain ⟨id, data, hleaf, before, hfate⟩ := block_mem_tells filter c hf
      have hread := (fate_eq_kept hfate).1
      exact ⟨id, place, data, hleaf, (Block.data_suffix hread).isInfix⟩
    | _ => cases hframe
  | _ => cases hframe

end Context

end Transmux
