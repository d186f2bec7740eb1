import Transmux.Proofs.RecordingViews
import Transmux.Proofs.SpanEvents
import Transmux.Proofs.VintReading

/-! A written document is read back as its tree: the events of its bytes are those of the tree in
document order, so a recording depends neither on how sizes are spelt nor on which are left
open. -/

namespace Transmux

/-- A document without the spelling of its sizes. -/
inductive Tree where
  | empty
  | leaf (id : ElementId) (payload : Bytes) (next : Tree)
  | master (id : ElementId) (children next : Tree)
deriving DecidableEq

namespace Tree

def depth : Tree → Nat
  | empty => 0
  | leaf _ _ next => next.depth
  | master _ children next => max (children.depth + 1) next.depth

/-- Adds a tree to a recording whose findings stand last first: a leaf by its payload, a master by
its start, then its children, then its end. -/
def visit (filter : Bool) : Tree → Recording → Recording
  | empty, r => r
  | leaf id payload next, r => next.visit filter (r.add filter (.leaf id .nowhere payload))
  | master id children next, r =>
    let inner := children.visit filter (r.add filter (.enter id .nowhere))
    next.visit filter (inner.add filter (.leave id))

end Tree

namespace Recording

/-- The recording that a tree tells, with no bytes read. -/
def ofTree (filter : Bool) (t : Tree) : Recording :=
  let r := t.visit filter ⟨{}, []⟩
  { r with findings := r.findings.reverse }

/-- All that is told of a stream, without where it stood. -/
structure Summary where
  channels : Nat
  sampleRate : Binary64
  codecPrivate : Option Bytes
  frames : List Bytes
  tracks : List Track
  audioTrack : Option Nat
  lacedBlocks : Nat
  skippedBlocks : Nat
deriving DecidableEq

def summary (r : Recording) : Summary where
  channels := r.context.channels
  sampleRate := r.context.sampleRate
  codecPrivate := r.context.codecPrivate
  frames := r.frames
  tracks := r.tracks
  audioTrack := r.context.audioTrack
  lacedBlocks := r.lacedBlocks
  skippedBlocks := r.skippedBlocks

theorem summary_unplaced (c : Context) (findings : List Finding) :
    (Recording.mk c (findings.map Finding.unplaced)).summary
      = (Recording.mk c findings).summary := by
  simp [summary, frames, tracks, lacedBlocks, skippedBlocks, List.filterMap_map, List.countP_map,
    Function.comp_def]

end Recording

namespace Header

theorem contentLength_told {id : ElementId} {f : SizeForm} {size length room : Nat}
    (hpos : 0 < length) (hlast : f.isKnown = true ∨ room = 0) :
    (Header.mk id (f.told size) length hpos).contentLength (size + room) = size := by
  by_cases hknown : f.isKnown = true
  · simp [contentLength, SizeForm.told, hknown]
  · have hroom : room = 0 := hlast.resolve_left hknown
    simp [contentLength, SizeForm.told, hknown, hroom]

end Header

namespace Event

section

variable {id : ElementId} {f : SizeForm} {content : Bytes} {room : Nat}

theorem drop_written (size : Nat) (rest : Bytes) :
    (ElementId.bytes id ++ (f.bytes size ++ rest)).drop (id.width + f.width) = rest := by
  rw [← List.append_assoc]
  exact List.drop_left' (by simp)

theorem span_written_leaf (hid : id.IsCoded) (hf : f.Fits content.length)
    (hleaf : id.isMaster = false) (hlast : f.isKnown = true ∨ room = 0)
    (parent : ElementId) (depth offset : Nat) (rest : Bytes) :
    span parent depth (ElementId.bytes id ++ (f.bytes content.length ++ (content ++ rest))) offset
        (id.width + f.width + (content.length + room))
      = .leaf id (Document.extent offset id f content.length) content
        :: span parent depth rest (Document.extent offset id f content.length).stop room := by
  have hpos : 0 < id.width + f.width := Nat.add_pos_left hid.1 _
  have hread := Header.read?_bytes hid hf (content ++ rest)
  have hsize : (Header.mk id (f.told content.length) (id.width + f.width) hpos).contentLength
      (id.width + f.width + (content.length + room) - (id.width + f.width)) = content.length := by
    rw [Nat.add_sub_cancel_left, Header.contentLength_told hpos hlast]
  rw [span_of_leaf hread (Nat.le_add_right ..) hleaf hsize]
  simp only [drop_written, List.take_left, List.drop_left, Nat.add_sub_cancel_left]
  rfl

theorem span_written_master (hid : id.IsCoded) (hf : f.Fits content.length)
    (hmaster : id.isMaster = true) (hlast : f.isKnown = true ∨ room = 0)
    (parent : ElementId) {depth : Nat} (hdepth : depth < maxDepth) (offset : Nat) (rest : Bytes) :
    span parent depth (ElementId.bytes id ++ (f.bytes content.length ++ (content ++ rest))) offset
        (id.width + f.width + (content.length + room))
      = .enter id (Document.extent offset id f content.length)
        :: (span id (depth + 1) (content ++ rest)
            (Document.extent offset id f content.length).contentOffset content.length
          ++ .leave id
            :: span parent depth rest (Document.extent offset id f content.length).stop room) := by
  have hpos : 0 < id.width + f.width := Nat.add_pos_left hid.1 _
  have hread := Header.read?_bytes hid hf (content ++ rest)
  have hsize : (Header.mk id (f.told content.length) (id.width + f.width) hpos).contentLength
      (id.width + f.width + (content.length + room) - (id.width + f.width)) = content.length := by
    rw [Nat.add_sub_cancel_left, Header.contentLength_told hpos hlast]
  rw [span_of_master hread (Nat.le_add_right ..) hmaster hdepth hsize]
  simp only [drop_written, List.drop_left, Nat.add_sub_cancel_left]
  rfl

theorem span_written_tooDeep (hid : id.IsCoded) (hf : f.Fits content.length)
    (hmaster : id.isMaster = true) (parent : ElementId) {depth : Nat} (hdeep : maxDepth ≤ depth)
    (offset : Nat) (rest : Bytes) :
    span parent depth (ElementId.bytes id ++ (f.bytes content.length ++ (content ++ rest))) offset
        (id.width + f.width + (content.length + room))
      = [.stopped ⟨parent, offset, .tooDeep⟩] :=
  span_of_tooDeep (Header.read?_bytes hid hf (content ++ rest)) (Nat.le_add_right ..) hmaster hdeep

end

end Event

namespace Document

def tree : Document → Tree
  | empty => .empty
  | leaf id _ payload next => .leaf id payload next.tree
  | master id _ children next => .master id children.tree next.tree

theorem depth_tree (d : Document) : d.tree.depth = d.depth := by
  induction d with
  | empty => rfl
  | leaf id form payload next ih => exact ih
  | master id form children next ihc ihn => rw [tree, Tree.depth, ihc, ihn, depth]

theorem length_bytes_of_last {form : SizeForm} {next : Document}
    (h : form.isKnown = true ∨ next = empty) : form.isKnown = true ∨ next.bytes.length = 0 :=
  h.imp_right fun hnext => by rw [hnext, bytes, List.length_nil]

/-- The events of a walk over the tree that starts inside so many masters. -/
def walked (parent : ElementId) (depth offset : Nat) : Document → List Event
  | empty => []
  | leaf id form payload next =>
    let place := extent offset id form payload.length
    .leaf id place payload :: next.walked parent depth place.stop
  | master id form children next =>
    let place := extent offset id form children.bytes.length
    if Event.maxDepth ≤ depth then [.stopped ⟨parent, offset, .tooDeep⟩]
    else
      .enter id place
        :: (children.walked id (depth + 1) place.contentOffset
          ++ .leave id :: next.walked parent depth place.stop)

section

variable (id : ElementId) (form : SizeForm) (payload : Bytes) (children next : Document)

theorem walked_master_deep {depth : Nat} (hdeep : Event.maxDepth ≤ depth) (parent : ElementId)
    (offset : Nat) :
    (master id form children next).walked parent depth offset
      = [.stopped ⟨parent, offset, .tooDeep⟩] := by
  rw [walked, if_pos hdeep]

theorem walked_master {depth : Nat} (hdepth : depth < Event.maxDepth) (parent : ElementId)
    (offset : Nat) :
    (master id form children next).walked parent depth offset
      = .enter id (extent offset id form children.bytes.length)
        :: (children.walked id (depth + 1)
            (extent offset id form children.bytes.length).contentOffset
          ++ .leave id
            :: next.walked parent depth (extent offset id form children.bytes.length).stop) := by
  rw [walked, if_neg (Nat.not_le.2 hdepth)]

theorem length_bytes_leaf :
    (leaf id form payload next).bytes.length
      = id.width + form.width + (payload.length + next.bytes.length) := by
  simp [bytes, Nat.add_assoc]

theorem length_bytes_master :
    (master id form children next).bytes.length
      = id.width + form.width + (children.bytes.length + next.bytes.length) := by
  simp [bytes, Nat.add_assoc]

end

theorem span_bytes {d : Document} (hd : d.WellFormed) (parent : ElementId) (depth offset : Nat)
    (rest : Bytes) :
    Event.span parent depth (d.bytes ++ rest) offset d.bytes.length
      = d.walked parent depth offset := by
  induction d generalizing parent depth offset rest with
  | empty => exact Event.span_zero
  | leaf id form payload next ih =>
    obtain ⟨hid, hleaf, hfits, hlast, hnext⟩ := hd
    rw [length_bytes_leaf]
    simp only [bytes, List.append_assoc]
    rw [Event.span_written_leaf hid hfits hleaf (length_bytes_of_last hlast), ih hnext]
    rfl
  | master id form children next ihchildren ihnext =>
    obtain ⟨hid, hmaster, hfits, hlast, hchildren, hnext⟩ := hd
    rw [length_bytes_master]
    simp only [bytes, List.append_assoc]
    by_cases hdeep : Event.maxDepth ≤ depth
    · rw [Event.span_written_tooDeep hid hfits hmaster parent hdeep,
        walked_master_deep _ _ _ _ hdeep]
    · have hdepth : depth < Event.maxDepth := Nat.lt_of_not_le hdeep
      rw [Event.span_written_master hid hfits hmaster (length_bytes_of_last hlast) parent hdepth,
        ihchildren hchildren, ihnext hnext, walked_master _ _ _ _ hdepth]

theorem walked_eq_events (d : Document) (parent : ElementId) {depth : Nat}
    (hdepth : depth + d.depth ≤ Event.maxDepth) (offset : Nat) :
    d.walked parent depth offset = d.events offset := by
  induction d generalizing parent depth offset with
  | empty => rfl
  | leaf id form payload next ih => rw [walked, ih parent hdepth, events]
  | master id form children next ihchildren ihnext =>
    have hnested : depth + max (children.depth + 1) next.depth ≤ Event.maxDepth := hdepth
    rw [walked_master _ _ _ _ (by omega), ihchildren id (by omega), ihnext parent (by omega),
      events]

theorem ofBytes_eq_walked {d : Document} (hd : d.WellFormed) :
    Event.ofBytes d.bytes = d.walked Event.root 0 0 := by
  have hspan := span_bytes hd Event.root 0 0 []
  rw [List.append_nil] at hspan
  rw [Event.ofBytes_eq_span, hspan]

theorem ofBytes_bytes {d : Document} (hd : d.WellFormed) (hdepth : d.depth ≤ Event.maxDepth) :
    Event.ofBytes d.bytes = d.events 0 := by
  rw [ofBytes_eq_walked hd, walked_eq_events d Event.root (by omega)]

theorem issue?_events (d : Document) (offset : Nat) :
    (d.events offset).filterMap Event.issue? = [] := by
  induction d generalizing offset with
  | empty => rfl
  | leaf id form payload next ih => exact ih _
  | master id form children next ihchildren ihnext =>
    rw [events, List.filterMap_cons, List.filterMap_append, ihchildren, List.filterMap_cons, ihnext]
    rfl

theorem visit_tree (filter : Bool) (d : Document) (offset : Nat) (r : Recording) :
    d.tree.visit filter r
      = ((d.events offset).map Event.unplaced).foldl (Recording.add filter) r := by
  induction d generalizing offset r with
  | empty => rfl
  | leaf id form payload next ih =>
    rw [tree, Tree.visit, ih _ _, events, List.map_cons, List.foldl_cons]
    rfl
  | master id form children next ihchildren ihnext =>
    rw [tree, Tree.visit, ihchildren _ _, ihnext _ _, events, List.map_cons, List.foldl_cons,
      List.map_append, List.foldl_append, List.map_cons, List.foldl_cons]
    rfl

theorem summary_ofTree (filter : Bool) (d : Document) (offset : Nat) :
    (Recording.ofTree filter d.tree).summary
      = (Recording.ofEvents filter (d.events offset)).summary := by
  have htree : Recording.ofTree filter d.tree
      = ⟨({} : Context).afterAll (d.events offset),
        (({} : Context).tells filter (d.events offset)).map Finding.unplaced⟩ := by
    rw [Recording.ofTree, visit_tree filter d offset, Recording.foldl_add,
      Context.afterAll_unplaced, Context.tells_unplaced]
    simp
  rw [htree, Recording.summary_unplaced, Recording.ofEvents_eq]

theorem summary_ofBytes_bytes (filter : Bool) {d : Document} (hd : d.WellFormed)
    (hdepth : d.depth ≤ Event.maxDepth) :
    (Recording.ofBytes filter d.bytes).summary = (Recording.ofTree filter d.tree).summary := by
  rw [Recording.ofBytes, ofBytes_bytes hd hdepth, summary_ofTree filter d 0]

/-- A written document is read without an issue as the recording its tree tells, so any other
spelling of the tree is read as the same. -/
theorem summary_written_document (filter : Bool) {d : Document} (hd : d.WellFormed)
    (hdepth : d.depth ≤ Event.maxDepth) :
    (Recording.ofBytes filter d.bytes).issues = []
      ∧ (Recording.ofBytes filter d.bytes).summary = (Recording.ofTree filter d.tree).summary
      ∧ ∀ e : Document, e.WellFormed → e.tree = d.tree →
        (Recording.ofBytes filter e.bytes).summary
          = (Recording.ofBytes filter d.bytes).summary := by
  refine ⟨?_, summary_ofBytes_bytes filter hd hdepth, fun e he htree => ?_⟩
  · rw [Recording.ofBytes, ofBytes_bytes hd hdepth, Recording.issues_ofEvents, issue?_events]
  · have hedepth : e.depth ≤ Event.maxDepth := by
      rw [← depth_tree, htree, depth_tree]
      exact hdepth
    rw [summary_ofBytes_bytes filter he hedepth, htree, summary_ofBytes_bytes filter hd hdepth]

instance decidableWellFormed : (d : Document) → Decidable d.WellFormed
  | empty => inferInstanceAs (Decidable True)
  | leaf _ _ _ next =>
    have := decidableWellFormed next
    inferInstanceAs (Decidable (_ ∧ _ ∧ _ ∧ _ ∧ _))
  | master _ _ children next =>
    have := decidableWellFormed children
    have := decidableWellFormed next
    inferInstanceAs (Decidable (_ ∧ _ ∧ _ ∧ _ ∧ _ ∧ _))

instance decidableIsSized : (d : Document) → Decidable d.IsSized
  | empty => inferInstanceAs (Decidable True)
  | leaf _ _ _ next =>
    have := decidableIsSized next
    inferInstanceAs (Decidable (_ ∧ _))
  | master _ _ children next =>
    have := decidableIsSized children
    have := decidableIsSized next
    inferInstanceAs (Decidable (_ ∧ _ ∧ _))

def trackAndBlock (segment cluster block : SizeForm) : Document :=
  .master Element.segment.id segment
    (.master Element.trackEntry.id (.known 1)
      (.leaf Element.trackNumber.id (.known 1) [1]
        (.leaf Element.trackType.id (.known 2) [2] .empty))
      (.master Element.cluster.id cluster
        (.leaf Element.simpleBlock.id block [0x81, 0, 0, 0, 7, 8] .empty) .empty)) .empty

def leftOpen : Document :=
  trackAndBlock (.unknown 8) (.unknown 1) (.unknown 3)

def allSized : Document :=
  trackAndBlock (.known 4) (.known 8) (.known 1)

theorem summary_written_document_trackAndBlock :
    leftOpen.WellFormed ∧ leftOpen.depth ≤ Event.maxDepth ∧ allSized.WellFormed
      ∧ allSized.tree = leftOpen.tree
      ∧ (Recording.ofBytes true leftOpen.bytes).issues = []
      ∧ (Recording.ofBytes true leftOpen.bytes).summary
        = ⟨1, ⟨0x40E7700000000000⟩, none, [[7, 8]], [{ number := some 1, type := some 2 }],
          some 1, 0, 0⟩
      ∧ (Recording.ofBytes true allSized.bytes).summary
        = (Recording.ofBytes true leftOpen.bytes).summary := by
  have hopen : leftOpen.WellFormed := by decide
  have hdepth : leftOpen.depth ≤ Event.maxDepth := by decide
  have hsized : allSized.WellFormed := by decide
  have htree : allSized.tree = leftOpen.tree := rfl
  obtain ⟨hissues, hread, hagree⟩ := summary_written_document true hopen hdepth
  exact ⟨hopen, hdepth, hsized, htree, hissues, hread.trans (by decide),
    hagree allSized hsized htree⟩

end Document

end Transmux
