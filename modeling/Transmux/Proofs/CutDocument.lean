import Transmux.Proofs.DocumentWalks
import Transmux.Proofs.HeaderExtension

/-! Walks that end in the middle of a document. A header that the cut falls into is not read, and
an element that it falls into otherwise is told as far as it goes, with no issue. -/

namespace Transmux

namespace Vint

theorem read?_take {bytes : Bytes} {v : Vint} (h : read? bytes = some v) {n : Nat}
    (hn : n < v.width) : read? (bytes.take n) = none := by
  cases hread : read? (bytes.take n) with
  | none => rfl
  | some short =>
    have hfull := read?_add hread (bytes.drop n)
    rw [List.take_append_drop, h] at hfull
    have hwidth := width_le_of_read? hread
    rw [← Option.some.inj hfull, List.length_take] at hwidth
    omega

end Vint

namespace Header

variable {id : ElementId} {f : SizeForm} {size : Nat}

theorem take_written (id : ElementId) (f : SizeForm) (size n : Nat) (rest : Bytes) :
    (ElementId.bytes id ++ (f.bytes size ++ rest)).take (id.width + f.width + n)
      = ElementId.bytes id ++ (f.bytes size ++ rest.take n) := by
  have hid := ElementId.length_bytes id
  have hf := SizeForm.length_bytes size f
  rw [Nat.add_assoc, ← hid, List.take_length_add_append, ← hf, List.take_length_add_append]

theorem read?_short (hid : id.IsCoded) (hf : f.Fits size) (rest : Bytes) {n : Nat}
    (hn : n < id.width + f.width) :
    read? ((ElementId.bytes id ++ (f.bytes size ++ rest)).take n)
      = .error (if n < id.width then .badId else .badSize) := by
  have hread := ElementId.read?_bytes hid (f.bytes size ++ rest)
  by_cases hshort : n < id.width
  · have hvint := (ElementId.read?_eq_some_iff.1 hread).1
    have hnone : ElementId.read? ((ElementId.bytes id ++ (f.bytes size ++ rest)).take n)
        = none := by
      rw [ElementId.read?, Vint.read?_take hvint hshort]
      rfl
    rw [read?, hnone, if_pos hshort]
  · have hsize : Vint.read? (f.bytes size ++ rest) = some ⟨f.coded size, f.width, hf.1⟩ :=
      Vint.read?_be hf.1 hf.2.1 (SizeForm.isCoded hf) rest
    have hcut : n - id.width < f.width := by omega
    have hnone := Vint.read?_take hsize hcut
    have hlength := ElementId.length_bytes id
    rw [List.take_append, List.take_of_length_le (by omega), hlength, read?,
      ElementId.read?_bytes hid]
    simp only [List.drop_left' hlength, hnone, if_neg hshort]

end Header

namespace Extent

/-- What is left of an element if an input ends at `stop`. -/
def upTo (stop : Nat) (e : Extent) : Extent :=
  { e with content := min (stop - e.contentOffset) e.content }

/-- Whether an input that ends at `stop` has a part of the header of an element. -/
def HeaderSplitAt (stop : Nat) (e : Extent) : Prop :=
  e.offset < stop ∧ stop < e.contentOffset

instance (stop : Nat) (e : Extent) : Decidable (e.HeaderSplitAt stop) :=
  inferInstanceAs (Decidable (_ ∧ _))

theorem content_le_of_stop_le {e : Extent} {stop : Nat} (h : e.stop ≤ stop) :
    e.content ≤ stop - e.contentOffset :=
  Nat.le_sub_of_add_le' h

theorem upTo_of_stop_le {e : Extent} {stop : Nat} (h : e.stop ≤ stop) : e.upTo stop = e := by
  rw [upTo, Nat.min_eq_right (content_le_of_stop_le h)]

end Extent

namespace Event

/-- What is told from an element on if an input ends at `stop`, `events` being told if it has the
whole header. -/
def upTo (parent : ElementId) (stop : Nat) (id : ElementId) (place : Extent)
    (events : List Event) : List Event :=
  if stop ≤ place.offset then []
  else if stop < place.contentOffset then
    [.stopped ⟨parent, place.offset, if stop - place.offset < id.width then .badId else .badSize⟩]
  else events

section

variable {parent id : ElementId} {stop : Nat} {place : Extent} {events : List Event}

theorem upTo_of_le (h : stop ≤ place.offset) : upTo parent stop id place events = [] :=
  if_pos h

theorem upTo_of_split (h : place.HeaderSplitAt stop) :
    upTo parent stop id place events
      = [.stopped ⟨parent, place.offset,
        if stop - place.offset < id.width then .badId else .badSize⟩] := by
  rw [upTo, if_neg (Nat.not_le.2 h.1), if_pos h.2]

theorem upTo_of_header (hstart : place.offset < stop) (h : place.contentOffset ≤ stop) :
    upTo parent stop id place events = events := by
  rw [upTo, if_neg (Nat.not_le.2 hstart), if_neg (Nat.not_lt.2 h)]

end

theorem span_upTo {id : ElementId} {form : SizeForm} {size : Nat} (hid : id.IsCoded)
    (hf : form.Fits size) (parent : ElementId) (depth : Nat) (rest : Bytes) (offset n room : Nat)
    (events : List Event)
    (hevents : ∀ m, n = id.width + form.width + m →
      span parent depth (ElementId.bytes id ++ (form.bytes size ++ rest.take m)) offset
        (id.width + form.width + min m room) = events) :
    span parent depth ((ElementId.bytes id ++ (form.bytes size ++ rest)).take n) offset
        (min n (id.width + form.width + room))
      = upTo parent (offset + n) id (Document.extent offset id form size) events := by
  have hstart : (Document.extent offset id form size).offset = offset := rfl
  have hcontent : (Document.extent offset id form size).contentOffset
      = offset + (id.width + form.width) := rfl
  by_cases hzero : n = 0
  · have hout : offset + n ≤ (Document.extent offset id form size).offset := by omega
    rw [upTo_of_le hout, hzero, Nat.zero_min, span_zero]
  · by_cases hshort : n < id.width + form.width
    · have hsplit : (Document.extent offset id form size).HeaderSplitAt (offset + n) :=
        ⟨by omega, by omega⟩
      have hread := Header.read?_short hid hf rest hshort
      rw [upTo_of_split hsplit, span_of_error (by omega) hread, hstart, Nat.add_sub_cancel_left]
    · obtain ⟨m, rfl⟩ := Nat.exists_eq_add_of_le (Nat.le_of_not_lt hshort)
      have hpos := hid.1
      rw [upTo_of_header (by omega) (by omega), Header.take_written, ← hevents m rfl,
        Nat.add_min_add_left]

end Event

namespace Document

/-- The events of a tree whose bytes start at `offset`, in an input that ends at `stop`. -/
def cut (parent : ElementId) (stop offset : Nat) : Document → List Event
  | empty => []
  | leaf id form payload next =>
    let place := extent offset id form payload.length
    Event.upTo parent stop id place
      (.leaf id (place.upTo stop) (payload.take (stop - place.contentOffset))
        :: next.cut parent stop place.stop)
  | master id form children next =>
    let place := extent offset id form children.bytes.length
    Event.upTo parent stop id place
      (.enter id (place.upTo stop)
        :: (children.cut id stop place.contentOffset
          ++ .leave id :: next.cut parent stop place.stop))

def places (offset : Nat) (d : Document) : List Extent :=
  (d.events offset).filterMap Event.place?

theorem cut_of_le {stop offset : Nat} (h : stop ≤ offset) (parent : ElementId) (d : Document) :
    d.cut parent stop offset = [] := by
  cases d with
  | empty => rfl
  | leaf => exact Event.upTo_of_le h
  | master => exact Event.upTo_of_le h

theorem extent_reached {id : ElementId} (hid : id.IsCoded) {form : SizeForm}
    {stop offset size more : Nat} (h : offset + (id.width + form.width + (size + more)) ≤ stop) :
    (extent offset id form size).offset < stop ∧ (extent offset id form size).contentOffset ≤ stop
      ∧ (extent offset id form size).stop ≤ stop
      ∧ (extent offset id form size).stop + more ≤ stop := by
  have hpos := hid.1
  simp only [extent, Extent.stop, Extent.contentOffset]
  omega

theorem cut_of_ge {d : Document} (hd : d.WellFormed) (parent : ElementId) {stop offset : Nat}
    (h : offset + d.bytes.length ≤ stop) : d.cut parent stop offset = d.events offset := by
  induction d generalizing parent offset with
  | empty => rfl
  | leaf id form payload next ih =>
    obtain ⟨hid, -, -, -, hnext⟩ := hd
    rw [length_bytes_leaf] at h
    obtain ⟨hstart, hheader, hstop, hbehind⟩ := extent_reached hid h
    rw [cut, Event.upTo_of_header hstart hheader, Extent.upTo_of_stop_le hstop,
      List.take_of_length_le (Extent.content_le_of_stop_le hstop), ih hnext parent hbehind, events]
  | master id form children next ihchildren ihnext =>
    obtain ⟨hid, -, -, -, hchildren, hnext⟩ := hd
    rw [length_bytes_master] at h
    obtain ⟨hstart, hheader, hstop, hbehind⟩ := extent_reached hid h
    rw [cut, Event.upTo_of_header hstart hheader, Extent.upTo_of_stop_le hstop,
      ihchildren hchildren id hstop, ihnext hnext parent hbehind, events]

theorem contentLength_told_min {id : ElementId} {form : SizeForm} {size room length : Nat}
    (hpos : 0 < length) (hlast : form.isKnown = true ∨ room = 0) (m : Nat) :
    (Header.mk id (form.told size) length hpos).contentLength
      (length + min m (size + room) - length) = min m size := by
  rw [Nat.add_sub_cancel_left]
  by_cases hknown : form.isKnown = true
  · simp only [Header.contentLength, SizeForm.told, if_pos hknown, Option.elim_some]
    omega
  · have hroom : room = 0 := hlast.resolve_left hknown
    simp only [Header.contentLength, SizeForm.told, if_neg hknown, Option.elim_none]
    omega

theorem upTo_extent (offset : Nat) (id : ElementId) (form : SizeForm) (m size : Nat) :
    (extent offset id form size).upTo (offset + (id.width + form.width) + m)
      = ⟨offset, id.width + form.width, min m size⟩ := by
  simp only [Extent.upTo, Extent.contentOffset, extent, Nat.add_sub_cancel_left]

section

variable {id : ElementId} {form : SizeForm} {payload content rest : Bytes}
  {children next : Document} {parent : ElementId} {depth : Nat}

theorem span_behind
    (hnext : ∀ offset n, Event.span parent depth ((next.bytes ++ rest).take n) offset
      (min n next.bytes.length) = next.cut parent (offset + n) offset)
    (content : Bytes) (offset n : Nat) :
    Event.span parent depth
        (((content ++ (next.bytes ++ rest)).take n).drop (min n content.length))
        (offset + min n content.length)
        (min n (content.length + next.bytes.length) - min n content.length)
      = next.cut parent (offset + n) (offset + content.length) := by
  by_cases hin : content.length ≤ n
  · have hroom : min n (content.length + next.bytes.length) - content.length
        = min (n - content.length) next.bytes.length := by omega
    have hstop : offset + content.length + (n - content.length) = offset + n := by omega
    rw [Nat.min_eq_right hin, List.drop_take, List.drop_left, hroom, hnext, hstop]
  · have hout : n ≤ content.length := Nat.le_of_not_le hin
    have hroom : min n (content.length + next.bytes.length) - n = 0 := by omega
    rw [Nat.min_eq_left hout, hroom, Event.span_zero, cut_of_le (by omega)]

theorem span_take_leaf (hid : id.IsCoded) (hleaf : id.isMaster = false)
    (hfits : form.Fits payload.length) (hlast : form.isKnown = true ∨ next = empty)
    (hnext : ∀ offset n, Event.span parent depth ((next.bytes ++ rest).take n) offset
      (min n next.bytes.length) = next.cut parent (offset + n) offset) (offset n : Nat) :
    Event.span parent depth (((leaf id form payload next).bytes ++ rest).take n) offset
        (min n (leaf id form payload next).bytes.length)
      = (leaf id form payload next).cut parent (offset + n) offset := by
  have hpos : 0 < id.width + form.width := Nat.add_pos_left hid.1 _
  rw [length_bytes_leaf]
  simp only [bytes, List.append_assoc]
  refine Event.span_upTo hid hfits parent depth _ offset n _ _ fun m hm => ?_
  have hread := Header.read?_bytes hid hfits ((payload ++ (next.bytes ++ rest)).take m)
  have hsize : (Header.mk id (form.told payload.length) (id.width + form.width) hpos).contentLength
      (id.width + form.width + min m (payload.length + next.bytes.length)
        - (id.width + form.width)) = min m payload.length :=
    contentLength_told_min hpos (length_bytes_of_last hlast) m
  have hbehind := span_behind hnext payload (offset + (id.width + form.width)) m
  have hdata : ((payload ++ (next.bytes ++ rest)).take m).take (min m payload.length)
      = payload.take m := by
    rw [List.take_take, Nat.min_right_comm, Nat.min_self, ← List.take_take, List.take_left]
  have hend : offset + n = offset + (id.width + form.width) + m := by omega
  have hdropped : offset + (id.width + form.width) + m
      - (extent offset id form payload.length).contentOffset = m := Nat.add_sub_cancel_left ..
  rw [Event.span_of_leaf hread (Nat.le_add_right ..) hleaf hsize, hend, upTo_extent, hdropped]
  simp only [Event.drop_written, Nat.add_sub_cancel_left, hbehind, hdata]
  rfl

theorem span_take_master (hid : id.IsCoded) (hmaster : id.isMaster = true)
    (hfits : form.Fits children.bytes.length) (hlast : form.isKnown = true ∨ next = empty)
    (hdepth : depth < Event.maxDepth)
    (hchildren : ∀ offset n, Event.span id (depth + 1)
      ((children.bytes ++ (next.bytes ++ rest)).take n) offset (min n children.bytes.length)
        = children.cut id (offset + n) offset)
    (hnext : ∀ offset n, Event.span parent depth ((next.bytes ++ rest).take n) offset
      (min n next.bytes.length) = next.cut parent (offset + n) offset) (offset n : Nat) :
    Event.span parent depth (((master id form children next).bytes ++ rest).take n) offset
        (min n (master id form children next).bytes.length)
      = (master id form children next).cut parent (offset + n) offset := by
  have hpos : 0 < id.width + form.width := Nat.add_pos_left hid.1 _
  rw [length_bytes_master]
  simp only [bytes, List.append_assoc]
  refine Event.span_upTo hid hfits parent depth _ offset n _ _ fun m hm => ?_
  have hread := Header.read?_bytes hid hfits ((children.bytes ++ (next.bytes ++ rest)).take m)
  have hsize : (Header.mk id (form.told children.bytes.length) (id.width + form.width)
      hpos).contentLength (id.width + form.width + min m (children.bytes.length + next.bytes.length)
        - (id.width + form.width)) = min m children.bytes.length :=
    contentLength_told_min hpos (length_bytes_of_last hlast) m
  have hbehind := span_behind hnext children.bytes (offset + (id.width + form.width)) m
  have hend : offset + n = offset + (id.width + form.width) + m := by omega
  rw [Event.span_of_master hread (Nat.le_add_right ..) hmaster hdepth hsize, hend, upTo_extent]
  simp only [Event.drop_written, Nat.add_sub_cancel_left, hbehind, hchildren]
  rfl

theorem span_take {d : Document} (hd : d.WellFormed) (parent : ElementId) {depth : Nat}
    (hdepth : depth + d.depth ≤ Event.maxDepth) (rest : Bytes) (offset n : Nat) :
    Event.span parent depth ((d.bytes ++ rest).take n) offset (min n d.bytes.length)
      = d.cut parent (offset + n) offset := by
  -- to the children of a master, what stands behind it is a part of the rest
  induction d generalizing parent depth rest offset n with
  | empty =>
    have hroom : min n (List.length ([] : Bytes)) = 0 := Nat.min_zero n
    rw [bytes, hroom, Event.span_zero, cut]
  | leaf id form payload next ih =>
    obtain ⟨hid, hleaf, hfits, hlast, hnext⟩ := hd
    exact span_take_leaf hid hleaf hfits hlast (ih hnext parent hdepth rest) offset n
  | master id form children next ihchildren ihnext =>
    obtain ⟨hid, hmaster, hfits, hlast, hchildren, hnext⟩ := hd
    have hnested : depth + max (children.depth + 1) next.depth ≤ Event.maxDepth := hdepth
    exact span_take_master hid hmaster hfits hlast (by omega)
      (ihchildren hchildren id (by omega) (next.bytes ++ rest))
      (ihnext hnext parent (by omega) rest) offset n

end

/-- What a walk over the beginning of a document tells. -/
theorem ofBytes_take {d : Document} (hd : d.WellFormed) (hdepth : d.depth ≤ Event.maxDepth)
    (n : Nat) :
    Event.ofBytes (d.bytes.take n) = d.cut Event.root n 0 := by
  have hspan := span_take hd Event.root (show 0 + d.depth ≤ Event.maxDepth by omega) [] 0 n
  rw [List.append_nil, Nat.zero_add] at hspan
  rw [Event.ofBytes_eq_span, List.length_take, hspan]

theorem places_leaf (id : ElementId) (form : SizeForm) (payload : Bytes) (next : Document)
    (offset : Nat) :
    (leaf id form payload next).places offset
      = extent offset id form payload.length
        :: next.places (extent offset id form payload.length).stop :=
  rfl

theorem places_master (id : ElementId) (form : SizeForm) (children next : Document)
    (offset : Nat) :
    (master id form children next).places offset
      = extent offset id form children.bytes.length
        :: (children.places (extent offset id form children.bytes.length).contentOffset
          ++ next.places (extent offset id form children.bytes.length).stop) := by
  simp only [places, events, List.filterMap_cons, List.filterMap_append]
  rfl

theorem le_offset_of_mem_places {d : Document} {offset : Nat} {place : Extent}
    (h : place ∈ d.places offset) : offset ≤ place.offset := by
  induction d generalizing offset with
  | empty => cases h
  | leaf id form payload next ih =>
    rw [places_leaf, List.mem_cons] at h
    rcases h with rfl | hnext
    · exact Nat.le_refl offset
    · have hle := ih hnext
      simp only [extent, Extent.stop, Extent.contentOffset] at hle
      omega
  | master id form children next ihchildren ihnext =>
    rw [places_master, List.mem_cons, List.mem_append] at h
    rcases h with rfl | hchildren | hnext
    · exact Nat.le_refl offset
    · have hle := ihchildren hchildren
      simp only [extent, Extent.contentOffset] at hle
      omega
    · have hle := ihnext hnext
      simp only [extent, Extent.stop, Extent.contentOffset] at hle
      omega

theorem filter_headerSplit_eq_nil {stop : Nat} (places : List Extent)
    (h : ∀ place ∈ places, stop ≤ place.offset) :
    places.filter (fun place => place.HeaderSplitAt stop) = [] := by
  refine List.filter_eq_nil_iff.2 fun place hplace hsplit => ?_
  have hle := h place hplace
  have hlt := (of_decide_eq_true hsplit).1
  omega

theorem issues_upTo {parent id : ElementId} {stop : Nat} {place : Extent} {events : List Event}
    {places : List Extent} (hplaces : ∀ later ∈ places, place.contentOffset ≤ later.offset)
    (hevents : (events.filterMap Event.issue?).map Issue.offset
      = (places.filter fun later => later.HeaderSplitAt stop).map Extent.offset) :
    ((Event.upTo parent stop id place events).filterMap Event.issue?).map Issue.offset
      = ((place :: places).filter fun later => later.HeaderSplitAt stop).map Extent.offset := by
  have hstart : place.offset ≤ place.contentOffset := Nat.le_add_right ..
  by_cases hbefore : stop ≤ place.offset
  · have hnone := filter_headerSplit_eq_nil (place :: places) fun p hp => by
      rcases List.mem_cons.1 hp with rfl | hlater
      · exact hbefore
      · exact Nat.le_trans (Nat.le_trans hbefore hstart) (hplaces p hlater)
    rw [Event.upTo_of_le hbefore, hnone]
    rfl
  · by_cases hsplit : place.HeaderSplitAt stop
    · have hnone := filter_headerSplit_eq_nil places fun p hp =>
        Nat.le_trans (Nat.le_of_lt hsplit.2) (hplaces p hp)
      rw [Event.upTo_of_split hsplit, List.filter_cons_of_pos (by simpa using hsplit), hnone]
      rfl
    · have hlt : place.offset < stop := Nat.lt_of_not_le hbefore
      have hheader : place.contentOffset ≤ stop :=
        Nat.le_of_not_lt fun hshort => hsplit ⟨hlt, hshort⟩
      rw [Event.upTo_of_header hlt hheader, List.filter_cons_of_neg (by simpa using hsplit),
        hevents]

/-- The only issue that a cut leads to is noted where the header starts that it falls into. -/
theorem issues_cut (d : Document) (parent : ElementId) (stop offset : Nat) :
    ((d.cut parent stop offset).filterMap Event.issue?).map Issue.offset
      = ((d.places offset).filter fun place => place.HeaderSplitAt stop).map Extent.offset := by
  induction d generalizing parent offset with
  | empty => rfl
  | leaf id form payload next ih =>
    rw [places_leaf]
    refine issues_upTo (fun later hlater => ?_) (ih parent _)
    exact Nat.le_trans (Nat.le_add_right ..) (le_offset_of_mem_places hlater)
  | master id form children next ihchildren ihnext =>
    rw [places_master]
    refine issues_upTo (fun later hlater => ?_) ?_
    · rcases List.mem_append.1 hlater with hchild | hnext
      · exact le_offset_of_mem_places hchild
      · exact Nat.le_trans (Nat.le_add_right ..) (le_offset_of_mem_places hnext)
    · rw [List.filterMap_cons_none rfl, List.filterMap_append, List.map_append, ihchildren,
        List.filterMap_cons_none rfl, ihnext, List.filter_append, List.map_append]

end Document

end Transmux
