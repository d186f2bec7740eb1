import Transmux.Ebml.Event

/-! The events of a span without an accumulator: the events inside an element come before those of
its next sibling, so what holds of every span is proved by induction on the elements in it. -/

namespace Transmux.Event

/-- What a walk of the next `room` bytes at `offset` tells, first event first. -/
def span (parent : ElementId) (depth : Nat) (bytes : Bytes) (offset room : Nat) : List Event :=
  if room = 0 then []
  else
    match Header.read? bytes with
    | .error reason => [.stopped ⟨parent, offset, reason⟩]
    | .ok h =>
      if room < h.length then [.stopped ⟨parent, offset, .badSize⟩]
      else
        let size := h.contentLength (room - h.length)
        let place : Extent := ⟨offset, h.length, size⟩
        let content := bytes.drop h.length
        if h.id.isMaster then
          if maxDepth ≤ depth then [.stopped ⟨parent, offset, .tooDeep⟩]
          else
            .enter h.id place :: (span h.id (depth + 1) content place.contentOffset size
              ++ .leave h.id
                :: span parent depth (content.drop size) place.stop (room - h.length - size))
        else
          .leaf h.id place (content.take size)
            :: span parent depth (content.drop size) place.stop (room - h.length - size)
termination_by room
decreasing_by
  all_goals
    have hp := h.length_pos
    have hs := h.contentLength_le (room - h.length)
    omega

section

variable {parent : ElementId} {depth : Nat} {bytes : Bytes} {offset room : Nat} {h : Header}

@[simp] theorem span_zero : span parent depth bytes offset 0 = [] := by
  rw [span, if_pos rfl]

theorem span_of_error {reason : Stop} (hroom : room ≠ 0)
    (hread : Header.read? bytes = .error reason) :
    span parent depth bytes offset room = [.stopped ⟨parent, offset, reason⟩] := by
  rw [span, if_neg hroom, hread]

theorem span_of_short (hroom : room ≠ 0) (hread : Header.read? bytes = .ok h)
    (hshort : room < h.length) :
    span parent depth bytes offset room = [.stopped ⟨parent, offset, .badSize⟩] := by
  rw [span, if_neg hroom, hread]
  exact if_pos hshort

theorem span_of_tooDeep (hread : Header.read? bytes = .ok h) (hlong : h.length ≤ room)
    (hmaster : h.id.isMaster = true) (hdeep : maxDepth ≤ depth) :
    span parent depth bytes offset room = [.stopped ⟨parent, offset, .tooDeep⟩] := by
  have hroom : room ≠ 0 := Nat.ne_of_gt (Nat.lt_of_lt_of_le h.length_pos hlong)
  rw [span, if_neg hroom, hread]
  exact (if_neg (Nat.not_lt.2 hlong)).trans ((if_pos hmaster).trans (if_pos hdeep))

theorem span_of_master {size : Nat} (hread : Header.read? bytes = .ok h) (hlong : h.length ≤ room)
    (hmaster : h.id.isMaster = true) (hdepth : depth < maxDepth)
    (hsize : h.contentLength (room - h.length) = size) :
    span parent depth bytes offset room
      = .enter h.id ⟨offset, h.length, size⟩
        :: (span h.id (depth + 1) (bytes.drop h.length) (offset + h.length) size
          ++ .leave h.id :: span parent depth ((bytes.drop h.length).drop size)
            (offset + h.length + size) (room - h.length - size)) := by
  have hroom : room ≠ 0 := Nat.ne_of_gt (Nat.lt_of_lt_of_le h.length_pos hlong)
  subst hsize
  rw [span, if_neg hroom, hread]
  exact (if_neg (Nat.not_lt.2 hlong)).trans
    ((if_pos hmaster).trans (if_neg (Nat.not_le.2 hdepth)))

theorem span_of_leaf {size : Nat} (hread : Header.read? bytes = .ok h) (hlong : h.length ≤ room)
    (hleaf : h.id.isMaster = false) (hsize : h.contentLength (room - h.length) = size) :
    span parent depth bytes offset room
      = .leaf h.id ⟨offset, h.length, size⟩ ((bytes.drop h.length).take size)
        :: span parent depth ((bytes.drop h.length).drop size) (offset + h.length + size)
          (room - h.length - size) := by
  have hroom : room ≠ 0 := Nat.ne_of_gt (Nat.lt_of_lt_of_le h.length_pos hlong)
  subst hsize
  rw [span, if_neg hroom, hread]
  exact (if_neg (Nat.not_lt.2 hlong)).trans (if_neg (by simp [hleaf]))

end

theorem walk_eq_span (parent : ElementId) (depth : Nat) (bytes : Bytes) (offset room : Nat)
    (seen : List Event) :
    walk parent depth bytes offset room seen
      = (span parent depth bytes offset room).reverse ++ seen := by
  fun_induction walk parent depth bytes offset room seen with
  | case1 => simp
  | case2 parent depth bytes offset room seen hroom reason hread =>
    rw [span_of_error hroom hread]
    rfl
  | case3 parent depth bytes offset room seen hroom h hread hshort =>
    rw [span_of_short hroom hread hshort]
    rfl
  | case4 parent depth bytes offset room seen hroom h hread hlong hmaster hdeep =>
    rw [span_of_tooDeep hread (Nat.not_lt.1 hlong) hmaster hdeep]
    rfl
  | case5 parent depth bytes offset room seen hroom h hread hlong size place content hmaster hdepth
      inner ihinner _ ihrest =>
    rw [span_of_master hread (Nat.not_lt.1 hlong) hmaster (Nat.not_le.1 hdepth) rfl, ihrest]
    simp only [inner, ihinner]
    simp [place, content, size, Extent.stop, Extent.contentOffset]
  | case6 parent depth bytes offset room seen hroom h hread hlong size place content hleaf ihrest =>
    rw [span_of_leaf hread (Nat.not_lt.1 hlong) (Bool.eq_false_iff.2 hleaf) rfl, ihrest]
    simp [place, content, size, Extent.stop, Extent.contentOffset]

theorem ofBytes_eq_span (bytes : Bytes) : ofBytes bytes = span root 0 bytes 0 bytes.length := by
  rw [ofBytes, walk_eq_span, List.append_nil, List.reverse_reverse]

end Transmux.Event
