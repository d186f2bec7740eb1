import Transmux.Proofs.DocumentWalks

/-! Recordings as they are usually laid out: a header, and then a segment with its tracks and the
clusters that hold the blocks. -/

namespace Transmux

/-- An element as it is written, with any bytes in it. -/
def ElementId.written (id : ElementId) (form : SizeForm) (content : Bytes) : Bytes :=
  ElementId.bytes id ++ (form.bytes content.length ++ content)

theorem ElementId.length_written (id : ElementId) (form : SizeForm) (content : Bytes) :
    (written id form content).length = id.width + form.width + content.length := by
  simp [written, Nat.add_assoc]

theorem SizeForm.Fits.mono {m n : Nat} {f : SizeForm} (h : f.Fits n) (hmn : m ≤ n) : f.Fits m :=
  ⟨h.1, h.2.1, fun hknown => by
    have hlt := h.2.2 hknown
    omega⟩

namespace Event

theorem span_written {id : ElementId} {f : SizeForm} {content : Bytes} {room : Nat}
    (hid : id.IsCoded) (hf : f.Fits content.length) (hmaster : id.isMaster = true)
    (hlast : f.isKnown = true ∨ room = 0) (parent : ElementId) {depth : Nat}
    (hdepth : depth < maxDepth) (offset : Nat) (rest : Bytes) :
    span parent depth (ElementId.written id f content ++ rest) offset
        ((ElementId.written id f content).length + room)
      = .enter id (Document.extent offset id f content.length)
        :: (span id (depth + 1) (content ++ rest)
            (Document.extent offset id f content.length).contentOffset content.length
          ++ .leave id
            :: span parent depth rest (Document.extent offset id f content.length).stop room) := by
  have hspan := span_written_master hid hf hmaster hlast parent hdepth offset rest
  rw [ElementId.length_written, ElementId.written, Nat.add_assoc]
  simpa only [List.append_assoc] using hspan

theorem span_written_last {id : ElementId} {f : SizeForm} {content : Bytes} (hid : id.IsCoded)
    (hf : f.Fits content.length) (hmaster : id.isMaster = true) (parent : ElementId) {depth : Nat}
    (hdepth : depth < maxDepth) (offset : Nat) :
    span parent depth (ElementId.written id f content) offset
        (ElementId.written id f content).length
      = .enter id (Document.extent offset id f content.length)
        :: (span id (depth + 1) content
            (Document.extent offset id f content.length).contentOffset content.length
          ++ [.leave id]) := by
  have hspan := span_written hid hf hmaster (Or.inr rfl) parent hdepth offset []
  rw [List.append_nil, List.append_nil, Nat.add_zero, span_zero] at hspan
  exact hspan

end Event

/-- What stands before the clusters of a recording. -/
structure Opening where
  headerForm : SizeForm
  header : Document
  segmentForm : SizeForm
  tracksForm : SizeForm
  tracks : Document

structure Cluster where
  form : SizeForm
  content : Document

/-- A cluster of known size. -/
structure Cluster.Sized (c : Cluster) : Prop where
  form_known : c.form.isKnown = true
  form_fits : c.form.Fits c.content.bytes.length
  content_wellFormed : c.content.WellFormed

namespace Document

/-- Clusters that follow one another. -/
def ofClusters : List Cluster → Document
  | [] => empty
  | c :: cs => master Element.cluster.id c.form c.content (ofClusters cs)

theorem depth_ofClusters_take (cs : List Cluster) (n : Nat) :
    (ofClusters (cs.take n)).depth ≤ (ofClusters cs).depth := by
  induction cs generalizing n with
  | nil => rw [List.take_nil]
  | cons c cs ih =>
    cases n with
    | zero => exact Nat.zero_le _
    | succ n =>
      have hn := ih n
      simp only [List.take_succ_cons, ofClusters, depth]
      omega

theorem bytes_master (id : ElementId) (form : SizeForm) (children next : Document) :
    (master id form children next).bytes
      = ElementId.written id form children.bytes ++ next.bytes := by
  simp [bytes, ElementId.written]

theorem ofClusters_append (a b : List Cluster) :
    ofClusters (a ++ b) = ofClusters a ++ ofClusters b := by
  induction a with
  | nil => rfl
  | cons c a ih => rw [List.cons_append, ofClusters, ofClusters, ih, master_append]

theorem ofClusters_ne_empty {cs : List Cluster} (h : cs ≠ []) : ofClusters cs ≠ empty := by
  cases cs with
  | nil => exact absurd rfl h
  | cons c cs => exact fun hempty => by cases hempty

theorem wellFormed_ofClusters_append {before cs : List Cluster} (hcs : cs ≠ [])
    (h : (ofClusters (before ++ cs)).WellFormed) :
    (∀ c ∈ before, c.Sized) ∧ (ofClusters cs).WellFormed := by
  induction before with
  | nil => exact ⟨fun c hc => absurd hc List.not_mem_nil, h⟩
  | cons c before ih =>
    obtain ⟨-, -, hfits, hlast, hcontent, hnext⟩ := h
    obtain ⟨hbefore, hwf⟩ := ih hnext
    have hmore : ofClusters (before ++ cs) ≠ empty :=
      ofClusters_ne_empty (List.append_ne_nil_of_right_ne_nil before hcs)
    exact ⟨List.forall_mem_cons.2 ⟨⟨hlast.resolve_right hmore, hfits, hcontent⟩, hbefore⟩, hwf⟩

theorem wellFormed_ofClusters {cs : List Cluster} (h : ∀ c ∈ cs, c.Sized) :
    (ofClusters cs).WellFormed := by
  induction cs with
  | nil => exact trivial
  | cons c cs ih =>
    obtain ⟨hc, hcs⟩ := List.forall_mem_cons.1 h
    exact ⟨by decide, rfl, hc.form_fits, Or.inl hc.form_known, hc.content_wellFormed, ih hcs⟩

theorem span_ofClusters {cs : List Cluster} (h : ∀ c ∈ cs, c.Sized) (parent : ElementId)
    {depth : Nat} (hdepth : depth < Event.maxDepth) (offset room : Nat) (rest : Bytes) :
    Event.span parent depth ((ofClusters cs).bytes ++ rest) offset
        ((ofClusters cs).bytes.length + room)
      = (ofClusters cs).walked parent depth offset
        ++ Event.span parent depth rest (offset + (ofClusters cs).bytes.length) room := by
  induction cs generalizing offset with
  | nil =>
    rw [ofClusters, bytes, walked, List.length_nil, Nat.zero_add]
    rfl
  | cons c cs ih =>
    obtain ⟨hc, hcs⟩ := List.forall_mem_cons.1 h
    have hid : ElementId.IsCoded Element.cluster.id := by decide
    have hlength : offset + (ElementId.written Element.cluster.id c.form c.content.bytes).length
        = (extent offset Element.cluster.id c.form c.content.bytes.length).stop := by
      rw [ElementId.length_written]
      exact (Nat.add_assoc ..).symm
    rw [ofClusters, bytes_master, List.length_append, List.append_assoc, Nat.add_assoc,
      Event.span_written hid hc.form_fits rfl (Or.inl hc.form_known) parent hdepth,
      span_bytes hc.content_wellFormed, ih hcs, walked_master _ _ _ _ hdepth, ← Nat.add_assoc,
      hlength]
    simp

end Document

namespace Opening

/-- What the segment holds, `rest` being all of it after the tracks. -/
def segment (o : Opening) (rest : Document) : Document :=
  .master Element.tracks.id o.tracksForm o.tracks rest

def recording (o : Opening) (rest : Document) : Document :=
  .master Element.ebml.id o.headerForm o.header
    (.master Element.segment.id o.segmentForm (o.segment rest) .empty)

/-- The size of the segment alone may be left open. -/
structure Fits (o : Opening) (rest : Document) : Prop where
  header_wellFormed : o.header.WellFormed
  header_known : o.headerForm.isKnown = true
  header_fits : o.headerForm.Fits o.header.bytes.length
  segment_fits : o.segmentForm.Fits (o.segment rest).bytes.length
  tracks_wellFormed : o.tracks.WellFormed
  tracks_known : o.tracksForm.isKnown = true
  tracks_fits : o.tracksForm.Fits o.tracks.bytes.length

variable {o : Opening} {rest : Document}

theorem Fits.wellFormed (h : o.Fits rest) (hrest : rest.WellFormed) :
    (o.recording rest).WellFormed := by
  have hsegment : (o.segment rest).WellFormed :=
    ⟨by decide, rfl, h.tracks_fits, Or.inl h.tracks_known, h.tracks_wellFormed, hrest⟩
  refine ⟨by decide, rfl, h.header_fits, Or.inl h.header_known, h.header_wellFormed, ?_⟩
  exact ⟨by decide, rfl, h.segment_fits, Or.inr rfl, hsegment, trivial⟩

theorem Fits.congr {a b : Document} (h : o.Fits a) (hbytes : b.bytes = a.bytes) : o.Fits b :=
  { h with segment_fits := by simpa only [segment, Document.bytes, hbytes] using h.segment_fits }

theorem depth_recording (o : Opening) (rest : Document) :
    (o.recording rest).depth
      = max (o.header.depth + 1) (max (o.tracks.depth + 2) (rest.depth + 1)) := by
  simp only [recording, segment, Document.depth]
  omega

theorem bytes_recording_congr (o : Opening) {a b : Document} (h : a.bytes = b.bytes) :
    (o.recording a).bytes = (o.recording b).bytes := by
  simp only [recording, segment, Document.bytes, h]

theorem visit_recording_congr (o : Opening) {filter : Bool} {a b : Document}
    (h : a.tree.visit filter = b.tree.visit filter) :
    (o.recording a).tree.visit filter = (o.recording b).tree.visit filter := by
  funext r
  simp only [recording, segment, Document.tree, Tree.visit, h]

theorem fits_of_wellFormed (h : (o.recording rest).WellFormed) (hrest : rest ≠ .empty) :
    o.Fits rest ∧ rest.WellFormed := by
  obtain ⟨-, -, hheaderFits, hheaderKnown, hheader, -, -, hsegmentFits, -, hsegment, -⟩ := h
  obtain ⟨-, -, htracksFits, htracksKnown, htracks, hwf⟩ := hsegment
  refine ⟨⟨hheader, hheaderKnown.resolve_right fun hempty => ?_, hheaderFits, hsegmentFits, htracks,
    htracksKnown.resolve_right hrest, htracksFits⟩, hwf⟩
  cases hempty

theorem Fits.empty (h : o.Fits rest) : o.Fits .empty :=
  { h with segment_fits := h.segment_fits.mono (by simp [segment, Document.bytes]) }

/-- A header and one audio track of number 1. -/
def oneTrack (segment : SizeForm) : Opening where
  headerForm := .known 1
  header := .leaf 0x4282 (.known 1) [0x77, 0x65, 0x62, 0x6D] .empty
  segmentForm := segment
  tracksForm := .known 1
  tracks := .master Element.trackEntry.id (.known 1)
    (.leaf Element.trackNumber.id (.known 1) [1]
      (.leaf Element.trackType.id (.known 1) [2] .empty)) .empty

def oneBlock (form : SizeForm) : Cluster :=
  ⟨form, .leaf Element.simpleBlock.id (.known 1) [0x81, 0, 0, 0x80, 0xFC, 0x01] .empty⟩

end Opening

end Transmux
