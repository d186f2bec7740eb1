import Transmux.Proofs.HeaderExtension
import Transmux.Proofs.RecordingViews
import Transmux.Proofs.SpanEvents

/-! Walks of the beginning of an input and of all of it, side by side. Up to the cut both tell the
same; an element that the cut falls into is told in part, and after it no leaf. -/

namespace Transmux

namespace Event

def isLeaf : Event → Bool
  | .leaf .. => true
  | _ => false

/-- What is told of the beginning of an input beside what is told of all of it. -/
inductive CutShort : List Event → List Event → Prop where
  | ended {part whole : List Event} (hpart : ∀ e ∈ part, e.isLeaf = false) : CutShort part whole
  | torn {part whole : List Event} (id : ElementId) (data lost : Bytes)
      (hpart : ∀ e ∈ part, e.isLeaf = false) :
      CutShort (.leaf id .nowhere data :: part) (.leaf id .nowhere (data ++ lost) :: whole)
  | same {part whole : List Event} (e : Event) (hcut : CutShort part whole) :
      CutShort (e :: part) (e :: whole)

namespace CutShort

theorem append_left {part whole : List Event} (h : CutShort part whole) (events : List Event) :
    CutShort (events ++ part) (events ++ whole) := by
  induction events with
  | nil => exact h
  | cons e events ih => exact .same e ih

theorem append_right {part whole : List Event} (h : CutShort part whole) {after : List Event}
    (hafter : ∀ e ∈ after, e.isLeaf = false) (rest : List Event) :
    CutShort (part ++ after) (whole ++ rest) := by
  have happend {before : List Event} (hbefore : ∀ e ∈ before, e.isLeaf = false) :
      ∀ e ∈ before ++ after, e.isLeaf = false := fun e he =>
    (List.mem_append.1 he).elim (hbefore e) (hafter e)
  induction h with
  | ended hpart => exact .ended (happend hpart)
  | torn id data lost hpart => exact .torn id data lost (happend hpart)
  | same e _ ih => exact .same e ih

end CutShort

section

variable {parent : ElementId} {depth : Nat} {bytes content : Bytes} {offset room size : Nat}
  {h : Header}

theorem essences_span_master (hread : Header.read? bytes = .ok h) (hbytes : h.length ≤ bytes.length)
    (hlong : h.length ≤ room) (hmaster : h.id.isMaster = true) (hdepth : depth < maxDepth)
    (hsize : h.contentLength (room - h.length) = size) (hcontent : bytes.drop h.length = content)
    (more : Bytes) :
    essences (span parent depth (bytes ++ more) offset room)
      = .enter h.id .nowhere
        :: (essences (span h.id (depth + 1) (content ++ more) (offset + h.length) size)
          ++ .leave h.id :: essences (span parent depth ((content ++ more).drop size)
            (offset + h.length + size) (room - h.length - size))) := by
  rw [span_of_master (Header.read?_add hread more) hlong hmaster hdepth hsize,
    List.drop_append_of_le_length hbytes, hcontent]
  simp

theorem essences_span_leaf (hread : Header.read? bytes = .ok h) (hbytes : h.length ≤ bytes.length)
    (hlong : h.length ≤ room) (hleaf : h.id.isMaster = false)
    (hsize : h.contentLength (room - h.length) = size) (hcontent : bytes.drop h.length = content)
    (more : Bytes) :
    essences (span parent depth (bytes ++ more) offset room)
      = .leaf h.id .nowhere ((content ++ more).take size)
        :: essences (span parent depth ((content ++ more).drop size) (offset + h.length + size)
          (room - h.length - size)) := by
  rw [span_of_leaf (Header.read?_add hread more) hlong hleaf hsize,
    List.drop_append_of_le_length hbytes, hcontent]
  simp

end

/-- What follows a span does not change what it tells of the stream. -/
theorem essences_span_add (parent : ElementId) (depth : Nat) (bytes : Bytes) (offset room : Nat)
    (hroom : room ≤ bytes.length) (more : Bytes) :
    essences (span parent depth (bytes ++ more) offset room)
      = essences (span parent depth bytes offset room) := by
  fun_induction span parent depth bytes offset room with
  | case1 => simp
  | case2 parent depth bytes offset room hne reason hread =>
    cases hadd : Header.read? (bytes ++ more) with
    | error reason' =>
      rw [span_of_error hne hadd]
      rfl
    | ok h =>
      -- only a header that runs past the span is read with the longer input alone
      have hshort : room < h.length := by
        by_cases hle : h.length ≤ room
        · have hok := Header.read?_of_add hadd (Nat.le_trans hle hroom)
          rw [hread] at hok
          cases hok
        · exact Nat.lt_of_not_le hle
      rw [span_of_short hne hadd hshort]
      rfl
  | case3 parent depth bytes offset room hne h hread hshort =>
    rw [span_of_short hne (Header.read?_add hread more) hshort]
  | case4 parent depth bytes offset room hne h hread hlong hmaster hdeep =>
    rw [span_of_tooDeep (Header.read?_add hread more) (Nat.not_lt.1 hlong) hmaster hdeep]
  | case5 parent depth bytes offset room hne h hread hlong size place content hmaster hdepth
      ihinner ihrest =>
    have hle : h.length ≤ room := Nat.not_lt.1 hlong
    have hsize : size ≤ room - h.length := h.contentLength_le _
    have hcontent : content.length = bytes.length - h.length := List.length_drop
    have hinner := ihinner (by omega)
    have hrest := ihrest (by rw [List.length_drop]; omega)
    rw [essences_span_master hread (Nat.le_trans hle hroom) hle hmaster (Nat.not_le.1 hdepth)
        (show _ = size from rfl) (show _ = content from rfl),
      List.drop_append_of_le_length (by omega)]
    simp only [essences_enter, essences_append, essences_leave, ← hinner, ← hrest]
    rfl
  | case6 parent depth bytes offset room hne h hread hlong size place content hleaf ihrest =>
    have hle : h.length ≤ room := Nat.not_lt.1 hlong
    have hsize : size ≤ room - h.length := h.contentLength_le _
    have hcontent : content.length = bytes.length - h.length := List.length_drop
    have hrest := ihrest (by rw [List.length_drop]; omega)
    rw [essences_span_leaf hread (Nat.le_trans hle hroom) hle (Bool.eq_false_iff.2 hleaf)
        (show _ = size from rfl) (show _ = content from rfl),
      List.drop_append_of_le_length (by omega), List.take_append_of_le_length (by omega)]
    simp only [essences_leaf, ← hrest]
    rfl

/-- A span that the input ends in, beside the same span of a longer input. -/
theorem cutShort_span (parent : ElementId) (depth : Nat) (bytes : Bytes) (offset room : Nat)
    (hroom : room = bytes.length) (more : Bytes) (extra : Nat) :
    CutShort (essences (span parent depth bytes offset room))
      (essences (span parent depth (bytes ++ more) offset (room + extra))) := by
  fun_induction span parent depth bytes offset room generalizing extra with
  | case1 => exact .ended (by simp)
  | case2 => exact .ended (by simp)
  | case3 => exact .ended (by simp)
  | case4 => exact .ended (by simp)
  | case5 parent depth bytes offset room hne h hread hlong size place content hmaster hdepth
      ihinner ihrest =>
    have hle : h.length ≤ room := Nat.not_lt.1 hlong
    have hsize : size ≤ room - h.length := h.contentLength_le _
    have hcontent : content.length = room - h.length := by rw [hroom]; exact List.length_drop
    have hsum : room + extra - h.length = room - h.length + extra := Nat.sub_add_comm hle
    simp only [essences_enter, essences_append, essences_leave]
    -- the cut falls behind the element, or into it
    rcases h.contentLength_add (room - h.length) extra with hsame | ⟨hfull, lost, hlost, -⟩
    · have hrest := ihrest (by rw [List.length_drop]; omega) extra
      have hrooms : room + extra - h.length - size = room - h.length - size + extra := by omega
      rw [essences_span_master hread (by omega) (by omega) hmaster (Nat.not_le.1 hdepth)
          (show _ = size by rw [hsum]; exact hsame) (show _ = content from rfl),
        List.drop_append_of_le_length (by omega), essences_span_add _ _ _ _ _ (by omega), hrooms]
      exact .same _ (.append_left (.same _ hrest) _)
    · have hinner := ihinner (by omega) lost
      have hend : room - h.length - size = 0 := by omega
      rw [essences_span_master hread (by omega) (by omega) hmaster (Nat.not_le.1 hdepth)
          (show _ = size + lost by rw [hsum]; omega) (show _ = content from rfl),
        hend, span_zero]
      exact .same _ (.append_right hinner (by simp [isLeaf]) _)
  | case6 parent depth bytes offset room hne h hread hlong size place content hleaf ihrest =>
    have hle : h.length ≤ room := Nat.not_lt.1 hlong
    have hsize : size ≤ room - h.length := h.contentLength_le _
    have hcontent : content.length = room - h.length := by rw [hroom]; exact List.length_drop
    have hsum : room + extra - h.length = room - h.length + extra := Nat.sub_add_comm hle
    rw [essences_leaf]
    rcases h.contentLength_add (room - h.length) extra with hsame | ⟨hfull, lost, hlost, -⟩
    · have hrest := ihrest (by rw [List.length_drop]; omega) extra
      have hrooms : room + extra - h.length - size = room - h.length - size + extra := by omega
      rw [essences_span_leaf hread (by omega) (by omega) (Bool.eq_false_iff.2 hleaf)
          (show _ = size by rw [hsum]; exact hsame) (show _ = content from rfl),
        List.drop_append_of_le_length (by omega), List.take_append_of_le_length (by omega), hrooms]
      exact .same _ hrest
    · have hend : room - h.length - size = 0 := by omega
      have htake : (content ++ more).take (size + lost) = content.take size ++ more.take lost := by
        have hlength : content.length = size := by omega
        have hall : content.take (size + lost) = content.take size := by
          rw [List.take_of_length_le (by omega), List.take_of_length_le (by omega)]
        rw [List.take_append, hlength, Nat.add_sub_cancel_left, hall]
      rw [essences_span_leaf hread (by omega) (by omega) (Bool.eq_false_iff.2 hleaf)
          (show _ = size + lost by rw [hsum]; omega) (show _ = content from rfl),
        hend, span_zero, htake]
      exact .torn _ _ _ (by simp)

theorem cutShort_ofBytes (bytes more : Bytes) :
    CutShort (essences (ofBytes bytes)) (essences (ofBytes (bytes ++ more))) := by
  rw [ofBytes_eq_span, ofBytes_eq_span, List.length_append]
  exact cutShort_span root 0 bytes 0 bytes.length rfl more more.length

end Event

end Transmux
