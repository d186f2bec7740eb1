import Mathlib.Algebra.Ring.Int.Defs
import Transmux.Proofs.CheckedWalk

/-! The elements that a walk visits. In each span the cursor moves from one element to the next, and
an element lies in what is left of its span, so that no byte is in two headers whatever sizes the
input claims. -/

namespace Transmux

/-- An element at the cursor of a span that ends at `stop`. -/
structure Extent.VisitedAt (place : Extent) (cursor stop : Nat) : Prop where
  offset_eq : place.offset = cursor
  /-- An id and a size take a byte each at least, so the cursor moves. -/
  cursor_lt : cursor + 2 ≤ place.contentOffset
  content_le : place.contentOffset ≤ place.stop
  stop_le : place.stop ≤ stop

namespace Extent

variable (place : Extent) {input bytes : Bytes}

theorem drop_header (h : bytes = input.drop place.offset) :
    bytes.drop place.header = input.drop place.contentOffset := by
  rw [h, List.drop_drop]
  rfl

theorem drop_content (h : bytes = input.drop place.contentOffset) :
    bytes.drop place.content = input.drop place.stop := by
  rw [h, List.drop_drop]
  rfl

end Extent

namespace Event

/-- The events of a span from the cursor up to `stop` that lies inside so many masters. -/
inductive Traverses : (depth cursor stop : Nat) → List Event → Prop where
  | finished (depth stop : Nat) : Traverses depth stop stop []
  | stopped {depth cursor stop : Nat} {issue : Issue} (hcursor : cursor < stop)
      (hissue : issue.offset = cursor) : Traverses depth cursor stop [.stopped issue]
  | leaf {depth cursor stop : Nat} {id : ElementId} {place : Extent} {data : Bytes}
      {rest : List Event} (hplace : place.VisitedAt cursor stop)
      (hdata : data.length = place.content) (hrest : Traverses depth place.stop stop rest) :
      Traverses depth cursor stop (.leaf id place data :: rest)
  | master {depth cursor stop : Nat} {id : ElementId} {place : Extent} {inner rest : List Event}
      (hdepth : depth < maxDepth) (hplace : place.VisitedAt cursor stop)
      (hinner : Traverses (depth + 1) place.contentOffset place.stop inner)
      (hrest : Traverses depth place.stop stop rest) :
      Traverses depth cursor stop (.enter id place :: (inner ++ .leave id :: rest))

end Event

theorem Header.two_le_length {bytes : Bytes} {h : Header} (hread : read? bytes = .ok h) :
    2 ≤ h.length := by
  obtain ⟨id, size, -, -, rfl⟩ := read?_eq_ok_iff.1 hread
  exact Nat.add_le_add id.width_pos size.width_pos

namespace Event

theorem traverses_span (parent : ElementId) (depth : Nat) (bytes : Bytes) (offset room : Nat)
    (hroom : room ≤ bytes.length) :
    Traverses depth offset (offset + room) (span parent depth bytes offset room) := by
  fun_induction span parent depth bytes offset room with
  | case1 parent depth bytes offset => exact .finished depth offset
  | case2 => exact .stopped (by omega) rfl
  | case3 => exact .stopped (by omega) rfl
  | case4 => exact .stopped (by omega) rfl
  | case5 parent depth bytes offset room hne h hread hlong size place content hmaster hdepth
      ihinner ihrest =>
    have hsize : size ≤ room - h.length := h.contentLength_le _
    have hcontent : content.length = bytes.length - h.length := List.length_drop
    have hstop : place.stop = offset + h.length + size := rfl
    have hplace : place.VisitedAt offset (offset + room) :=
      ⟨rfl, Nat.add_le_add_left (Header.two_le_length hread) offset, Nat.le_add_right .., by omega⟩
    have hrest := ihrest (by rw [List.length_drop]; omega)
    have hend : place.stop + (room - h.length - size) = offset + room := by omega
    rw [hend] at hrest
    exact .master (Nat.lt_of_not_le hdepth) hplace (ihinner (by omega)) hrest
  | case6 parent depth bytes offset room hne h hread hlong size place content hleaf ihrest =>
    have hsize : size ≤ room - h.length := h.contentLength_le _
    have hcontent : content.length = bytes.length - h.length := List.length_drop
    have hstop : place.stop = offset + h.length + size := rfl
    have hplace : place.VisitedAt offset (offset + room) :=
      ⟨rfl, Nat.add_le_add_left (Header.two_le_length hread) offset, Nat.le_add_right .., by omega⟩
    have hrest := ihrest (by rw [List.length_drop]; omega)
    have hend : place.stop + (room - h.length - size) = offset + room := by omega
    rw [hend] at hrest
    exact .leaf hplace (List.length_take_of_le (by omega)) hrest

theorem traverses_ofBytes (bytes : Bytes) : Traverses 0 0 bytes.length (ofBytes bytes) := by
  have hspan := traverses_span root 0 bytes 0 bytes.length (Nat.le_refl _)
  rwa [Nat.zero_add, ← ofBytes_eq_span] at hspan

/-- The elements that a walk comes to. -/
def visited (events : List Event) : List Extent :=
  events.filterMap place?

/-- How an event changes the number of masters that are open. -/
def change : Event → Int
  | .enter _ _ => 1
  | .leave _ => -1
  | _ => 0

/-- How many masters some events leave open. -/
def level (events : List Event) : Int :=
  (events.map change).sum

section

variable (id : ElementId) (place : Extent) (data : Bytes) (issue : Issue) (rest : List Event)

@[simp] theorem visited_nil : visited [] = [] :=
  rfl

@[simp] theorem visited_enter : visited (.enter id place :: rest) = place :: visited rest :=
  rfl

@[simp] theorem visited_leave : visited (.leave id :: rest) = visited rest :=
  rfl

@[simp] theorem visited_leaf : visited (.leaf id place data :: rest) = place :: visited rest :=
  rfl

@[simp] theorem visited_stopped : visited (.stopped issue :: rest) = visited rest :=
  rfl

@[simp] theorem visited_append (a b : List Event) : visited (a ++ b) = visited a ++ visited b :=
  List.filterMap_append

@[simp] theorem level_nil : level [] = 0 :=
  rfl

@[simp] theorem level_enter : level (.enter id place :: rest) = 1 + level rest := by
  simp [level, change]

@[simp] theorem level_leave : level (.leave id :: rest) = -1 + level rest := by
  simp [level, change]

@[simp] theorem level_leaf : level (.leaf id place data :: rest) = level rest := by
  simp [level, change]

@[simp] theorem level_append (a b : List Event) : level (a ++ b) = level a + level b := by
  simp [level]

end

namespace Traverses

variable {depth cursor stop : Nat} {events : List Event}

/-- An element lies in its span, and in all spans around that. -/
theorem mem_visited (h : Traverses depth cursor stop events) {place : Extent}
    (hplace : place ∈ visited events) :
    cursor ≤ place.offset ∧ place.contentOffset ≤ place.stop ∧ place.stop ≤ stop := by
  induction h with
  | finished => cases hplace
  | stopped => cases hplace
  | leaf hfirst _ _ ih =>
    obtain ⟨hoffset, hlt, hle, hstop⟩ := hfirst
    rcases List.mem_cons.1 hplace with rfl | hrest
    · exact ⟨Nat.le_of_eq hoffset.symm, hle, hstop⟩
    · obtain ⟨hfrom, hcontent, hto⟩ := ih hrest
      exact ⟨by omega, hcontent, hto⟩
  | master _ hfirst _ _ ihinner ihrest =>
    obtain ⟨hoffset, hlt, hle, hstop⟩ := hfirst
    rw [visited_enter, visited_append, visited_leave, List.mem_cons, List.mem_append] at hplace
    rcases hplace with rfl | hinner | hrest
    · exact ⟨Nat.le_of_eq hoffset.symm, hle, hstop⟩
    · obtain ⟨hfrom, hcontent, hto⟩ := ihinner hinner
      exact ⟨by omega, hcontent, by omega⟩
    · obtain ⟨hfrom, hcontent, hto⟩ := ihrest hrest
      exact ⟨by omega, hcontent, hto⟩

/-- A header ends before the next element starts, be that one inside or behind. -/
theorem pairwise_visited (h : Traverses depth cursor stop events) :
    (visited events).Pairwise fun a b => a.contentOffset ≤ b.offset := by
  induction h with
  | finished => exact .nil
  | stopped => exact .nil
  | leaf hfirst _ hrest ih =>
    refine List.pairwise_cons.2 ⟨fun b hb => ?_, ih⟩
    exact Nat.le_trans hfirst.content_le (hrest.mem_visited hb).1
  | master _ hfirst hinner hrest ihinner ihrest =>
    rw [visited_enter, visited_append, visited_leave]
    refine List.pairwise_cons.2 ⟨fun b hb => ?_, List.pairwise_append.2 ⟨ihinner, ihrest, ?_⟩⟩
    · rcases List.mem_append.1 hb with hb | hb
      · exact (hinner.mem_visited hb).1
      · exact Nat.le_trans hfirst.content_le (hrest.mem_visited hb).1
    · intro a ha b hb
      obtain ⟨-, hcontent, hto⟩ := hinner.mem_visited ha
      exact Nat.le_trans hcontent (Nat.le_trans hto (hrest.mem_visited hb).1)

theorem two_mul_length_visited_le (h : Traverses depth cursor stop events) :
    cursor + 2 * (visited events).length ≤ stop := by
  induction h with
  | finished => exact Nat.le_refl _
  | stopped hcursor => exact Nat.le_of_lt hcursor
  | leaf hfirst _ _ ih =>
    have hlt := hfirst.cursor_lt
    have hle := hfirst.content_le
    rw [visited_leaf, List.length_cons]
    omega
  | master _ hfirst _ _ ihinner ihrest =>
    have hlt := hfirst.cursor_lt
    rw [visited_enter, visited_append, visited_leave, List.length_cons, List.length_append]
    omega

/-- Every master that is entered is left. -/
theorem level_eq_zero (h : Traverses depth cursor stop events) : level events = 0 := by
  induction h with
  | finished => rfl
  | stopped => rfl
  | leaf _ _ _ ih => rw [level_leaf, ih]
  | master _ _ _ _ ihinner ihrest =>
    rw [level_enter, level_append, level_leave, ihinner, ihrest]
    rfl

/-- No more masters are open at a time than may stand inside one another. -/
theorem level_le (h : Traverses depth cursor stop events) (hdepth : depth ≤ maxDepth)
    {front : List Event} (hfront : front <+: events) : depth + level front ≤ maxDepth := by
  have hnil : (depth : Int) + level [] ≤ maxDepth := by
    rw [level_nil]
    omega
  induction h generalizing front with
  | finished =>
    obtain rfl := List.prefix_nil.1 hfront
    exact hnil
  | stopped =>
    rcases List.prefix_cons_iff.1 hfront with rfl | ⟨tail, rfl, htail⟩
    · exact hnil
    · obtain rfl := List.prefix_nil.1 htail
      exact hnil
  | leaf _ _ _ ih =>
    rcases List.prefix_cons_iff.1 hfront with rfl | ⟨tail, rfl, htail⟩
    · exact hnil
    · rw [level_leaf]
      exact ih hdepth htail hnil
  | @master depth cursor stop id place inner rest hlt _ hinner _ ihinner ihrest =>
    rcases List.prefix_cons_iff.1 hfront with rfl | ⟨tail, rfl, htail⟩
    · exact hnil
    · rw [level_enter]
      rcases List.prefix_or_prefix_of_prefix htail (List.prefix_append inner _) with hin | hout
      · have hopen := ihinner hlt hin (by rw [level_nil]; omega)
        omega
      · obtain ⟨later, rfl⟩ := hout
        rw [List.prefix_append_right_inj] at htail
        rw [level_append, hinner.level_eq_zero]
        rcases List.prefix_cons_iff.1 htail with rfl | ⟨last, rfl, hlast⟩
        · rw [level_nil]
          omega
        · have hopen := ihrest hdepth hlast hnil
          rw [level_leave]
          omega

end Traverses

end Event

/-- Whatever an input holds, a machine reads it to its end. Each span and each element in it lies
inside the input, the cursor moves with each element, no more than 64 masters are open at a time,
and no byte belongs to two headers, so that there are twice as many bytes as elements. -/
theorem Recording.walk_is_safe (filter : Bool) {bytes : Bytes} (h : bytes.length < 2 ^ 63) :
    readAt filter bytes = .ok (ofBytes filter bytes)
      ∧ Event.Traverses 0 0 bytes.length (Event.ofBytes bytes)
      ∧ (∀ front, front <+: Event.ofBytes bytes → Event.level front ≤ 64)
      ∧ ((Event.visited (Event.ofBytes bytes)).Pairwise fun a b => a.contentOffset ≤ b.offset)
      ∧ 2 * (Event.visited (Event.ofBytes bytes)).length ≤ bytes.length := by
  have hwalk := Event.traverses_ofBytes bytes
  refine ⟨readAt_eq filter h, hwalk, fun front hfront => ?_, hwalk.pairwise_visited, ?_⟩
  · have hlevel := hwalk.level_le (Nat.zero_le _) hfront
    rw [Event.maxDepth] at hlevel
    omega
  · have hcount := hwalk.two_mul_length_visited_le
    omega

/-- A segment with its size left open, and in it a cluster that claims more bytes than there are
addresses in half of the memory. The block in it claims more as well. -/
def oversized : Bytes :=
  [0x18, 0x53, 0x80, 0x67, 0xFF, 0x1F, 0x43, 0xB6, 0x75, 0x01, 0xFF, 0xFF, 0xFF, 0xFF, 0xFF, 0xFF,
    0xFE, 0xA3, 0x40, 0xFF, 0x81, 0x00, 0x00, 0x80, 0xFC, 0x01]

theorem Recording.walk_is_safe_oversized :
    oversized.length < 2 ^ 63
      ∧ readAt true oversized = .ok (ofBytes true oversized)
      ∧ (ofBytes true oversized).frames = [[0xFC, 0x01]]
      ∧ Event.visited (Event.ofBytes oversized) = [⟨0, 5, 21⟩, ⟨5, 12, 9⟩, ⟨17, 3, 6⟩]
      ∧ 2 * 3 ≤ oversized.length := by
  have hlength : oversized.length < 2 ^ 63 := by decide
  obtain ⟨hread, -, -, -, hcount⟩ := walk_is_safe true hlength
  have hvisited : Event.visited (Event.ofBytes oversized)
      = [⟨0, 5, 21⟩, ⟨5, 12, 9⟩, ⟨17, 3, 6⟩] := by decide +kernel
  rw [hvisited] at hcount
  exact ⟨hlength, hread, by decide +kernel, hvisited, hcount⟩

end Transmux
