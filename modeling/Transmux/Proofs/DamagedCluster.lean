import Transmux.Proofs.ClusteredDocument
import Transmux.Proofs.PacketPlaces

/-! A recording in which the content of one cluster is overwritten. A walk leaves a cluster where
its size says, whatever it finds inside, and of what is known of the stream only the audio track
matters to packets. So the damage does not reach the packets of the other clusters. -/

namespace Transmux

namespace Opening

open Document (ofClusters)

variable {o : Opening} {rest : Document}

/-- A recording with any bytes behind its tracks. -/
def laidOut (o : Opening) (clusters : Bytes) : Bytes :=
  Element.ebml.id.written o.headerForm o.header.bytes
    ++ Element.segment.id.written o.segmentForm
      (Element.tracks.id.written o.tracksForm o.tracks.bytes ++ clusters)

theorem bytes_recording (o : Opening) (rest : Document) :
    (o.recording rest).bytes = o.laidOut rest.bytes := by
  have hempty : Document.empty.bytes = [] := rfl
  rw [recording, Document.bytes_master, Document.bytes_master, segment, Document.bytes_master,
    hempty, List.append_nil, laidOut]

def headerPlace (o : Opening) : Extent :=
  Document.extent 0 Element.ebml.id o.headerForm o.header.bytes.length

def segmentPlace (o : Opening) (size : Nat) : Extent :=
  Document.extent o.headerPlace.stop Element.segment.id o.segmentForm size

def tracksPlace (o : Opening) : Extent :=
  Document.extent (o.segmentPlace 0).contentOffset Element.tracks.id o.tracksForm
    o.tracks.bytes.length

/-- The events in front of the clusters, in a segment of this size. -/
def opened (o : Opening) (size : Nat) : List Event :=
  .enter Element.ebml.id o.headerPlace
    :: (o.header.walked Element.ebml.id 1 o.headerPlace.contentOffset
      ++ .leave Element.ebml.id :: .enter Element.segment.id (o.segmentPlace size)
      :: .enter Element.tracks.id o.tracksPlace
      :: (o.tracks.walked Element.tracks.id 2 o.tracksPlace.contentOffset
        ++ [.leave Element.tracks.id]))

theorem ofBytes_laidOut (ho : o.Fits rest) {clusters : Bytes}
    (hlength : clusters.length = rest.bytes.length) :
    Event.ofBytes (o.laidOut clusters)
      = o.opened (o.segment rest).bytes.length
        ++ (Event.span Element.segment.id 1 clusters o.tracksPlace.stop clusters.length
          ++ [.leave Element.segment.id]) := by
  have hsize : (Element.tracks.id.written o.tracksForm o.tracks.bytes ++ clusters).length
      = (o.segment rest).bytes.length := by
    rw [segment, Document.bytes_master, List.length_append, List.length_append, hlength]
  have hsegment := ho.segment_fits
  rw [← hsize] at hsegment ⊢
  have hebml : ElementId.IsCoded Element.ebml.id := by decide
  have hsegmentId : ElementId.IsCoded Element.segment.id := by decide
  have htracks : ElementId.IsCoded Element.tracks.id := by decide
  have htop : 0 < Event.maxDepth := by decide
  have hnested : 0 + 1 < Event.maxDepth := by decide
  rw [Event.ofBytes_eq_span, laidOut, List.length_append,
    Event.span_written hebml ho.header_fits rfl (Or.inl ho.header_known) _ htop,
    Document.span_bytes ho.header_wellFormed,
    Event.span_written_last hsegmentId hsegment rfl _ htop, List.length_append,
    Event.span_written htracks ho.tracks_fits rfl (Or.inl ho.tracks_known) _ hnested,
    Document.span_bytes ho.tracks_wellFormed]
  simp only [opened, List.cons_append, List.append_assoc]
  rfl

variable {before after : List Cluster} {c : Cluster}

theorem length_laidOut (o : Opening) (clusters : Bytes) :
    (o.laidOut clusters).length = o.tracksPlace.stop + clusters.length := by
  simp only [laidOut, List.length_append, ElementId.length_written, tracksPlace, segmentPlace,
    headerPlace, Document.extent, Extent.stop, Extent.contentOffset]
  omega

/-- Where the content of a cluster starts that stands behind some others. -/
def contentStart (o : Opening) (before : List Cluster) (c : Cluster) : Nat :=
  (o.recording (ofClusters before)).bytes.length
    + (ElementId.width Element.cluster.id + c.form.width)

theorem contentStart_eq (o : Opening) (before : List Cluster) (c : Cluster) :
    o.contentStart before c = o.tracksPlace.stop + (ofClusters before).bytes.length
      + (ElementId.width Element.cluster.id + c.form.width) := by
  rw [contentStart, bytes_recording, length_laidOut]

/-- A recording with any bytes in one of its clusters. -/
def holding (o : Opening) (before : List Cluster) (c : Cluster) (after : List Cluster)
    (content : Bytes) : Bytes :=
  o.laidOut ((ofClusters before).bytes
    ++ (Element.cluster.id.written c.form content ++ (ofClusters after).bytes))

theorem holding_content (o : Opening) (before : List Cluster) (c : Cluster)
    (after : List Cluster) : o.holding before c after c.content.bytes
      = (o.recording (ofClusters (before ++ c :: after))).bytes := by
  rw [holding, bytes_recording, Document.ofClusters_append, Document.bytes_append, ofClusters,
    Document.bytes_master]

theorem length_holding (o : Opening) (before : List Cluster) (c : Cluster) (after : List Cluster)
    (content : Bytes) :
    (o.holding before c after content).length
      = o.contentStart before c + content.length + (ofClusters after).bytes.length := by
  rw [holding, length_laidOut, contentStart_eq, List.length_append, List.length_append,
    ElementId.length_written]
  omega

theorem overwrite_holding (o : Opening) (before : List Cluster) (c : Cluster) (after : List Cluster)
    {content g : Bytes} (hg : g.length = content.length) :
    Bytes.overwrite (o.holding before c after content) (o.contentStart before c) g
      = o.holding before c after g := by
  -- what stands in front of the content does not depend on more than its length
  have hsplit : ∃ front, front.length = o.contentStart before c
      ∧ ∀ content' : Bytes, content'.length = content.length →
        o.holding before c after content' = front ++ (content' ++ (ofClusters after).bytes) := by
    refine ⟨Element.ebml.id.written o.headerForm o.header.bytes
      ++ (ElementId.bytes Element.segment.id
        ++ (o.segmentForm.bytes (Element.tracks.id.written o.tracksForm o.tracks.bytes
            ++ ((ofClusters before).bytes ++ (Element.cluster.id.written c.form content
              ++ (ofClusters after).bytes))).length
          ++ (Element.tracks.id.written o.tracksForm o.tracks.bytes
            ++ ((ofClusters before).bytes ++ (ElementId.bytes Element.cluster.id
              ++ c.form.bytes content.length))))), ?_, fun content' hlength => ?_⟩
    · rw [contentStart, bytes_recording, length_laidOut]
      simp only [List.length_append, ElementId.length_written, ElementId.length_bytes,
        SizeForm.length_bytes, tracksPlace, segmentPlace, headerPlace, Document.extent, Extent.stop,
        Extent.contentOffset]
      omega
    · simp only [holding, laidOut, ElementId.written, List.length_append, hlength,
        List.append_assoc]
  obtain ⟨front, hlength, hfront⟩ := hsplit
  rw [hfront content rfl, hfront g hg, ← hlength, Bytes.overwrite_append hg]

/-- The events in front of the content of a cluster, in a segment of this size. -/
def eventsBefore (o : Opening) (before : List Cluster) (c : Cluster) (size : Nat) : List Event :=
  o.opened size
    ++ ((ofClusters before).walked Element.segment.id 1 o.tracksPlace.stop
      ++ [.enter Element.cluster.id (Document.extent
        (o.tracksPlace.stop + (ofClusters before).bytes.length) Element.cluster.id c.form
        c.content.bytes.length)])

def eventsAfter (o : Opening) (before : List Cluster) (c : Cluster) (after : List Cluster) :
    List Event :=
  .leave Element.cluster.id
    :: ((ofClusters after).walked Element.segment.id 1
      (o.contentStart before c + c.content.bytes.length) ++ [.leave Element.segment.id])

theorem parts_of_wellFormed (hd : (o.recording (ofClusters (before ++ c :: after))).WellFormed) :
    o.Fits (ofClusters (before ++ c :: after)) ∧ (∀ c ∈ before, c.Sized)
      ∧ (ofClusters (c :: after)).WellFormed := by
  have hne : before ++ c :: after ≠ [] :=
    List.append_ne_nil_of_right_ne_nil before (List.cons_ne_nil c after)
  obtain ⟨ho, hclusters⟩ := fits_of_wellFormed hd (Document.ofClusters_ne_empty hne)
  exact ⟨ho, Document.wellFormed_ofClusters_append (List.cons_ne_nil c after) hclusters⟩

theorem ofBytes_holding (hd : (o.recording (ofClusters (before ++ c :: after))).WellFormed)
    {content : Bytes} (hcontent : content.length = c.content.bytes.length) :
    Event.ofBytes (o.holding before c after content)
      = o.eventsBefore before c (o.segment (ofClusters (before ++ c :: after))).bytes.length
        ++ (Event.span Element.cluster.id 2 (content ++ (ofClusters after).bytes)
            (o.contentStart before c) content.length
          ++ o.eventsAfter before c after) := by
  obtain ⟨ho, hbefore, hid, hmaster, hfits, hlast, -, hafter⟩ := parts_of_wellFormed hd
  have hnested : 1 < Event.maxDepth := by decide
  have hstart := contentStart_eq o before c
  have hspan := Document.span_bytes hafter Element.segment.id 1
    (Document.extent (o.tracksPlace.stop + (ofClusters before).bytes.length) Element.cluster.id
      c.form content.length).stop []
  rw [List.append_nil] at hspan
  have hlength : ((ofClusters before).bytes ++ (Element.cluster.id.written c.form content
      ++ (ofClusters after).bytes)).length
      = (ofClusters (before ++ c :: after)).bytes.length := by
    rw [Document.ofClusters_append, Document.bytes_append, ofClusters, Document.bytes_master]
    simp only [List.length_append, ElementId.length_written, hcontent]
  rw [← hcontent] at hfits
  rw [holding, ofBytes_laidOut ho hlength, List.length_append,
    Document.span_ofClusters hbefore _ hnested, List.length_append,
    Event.span_written hid hfits hmaster (Document.length_bytes_of_last hlast) _ hnested, hspan,
    eventsBefore, eventsAfter, hstart, ← hcontent]
  simp only [List.append_assoc, List.cons_append, List.nil_append]
  rfl

theorem opened_unplaced (o : Opening) (a b : Nat) :
    (o.opened a).map Event.unplaced = (o.opened b).map Event.unplaced := by
  simp only [opened, List.map_cons, List.map_append, Event.unplaced]

/-- In front of its clusters a recording tells its audio track. -/
theorem audioTrack_opened {filter : Bool} {n : Nat} (ho : o.Fits .empty)
    (hn : Recording.firstAudio (Recording.ofBytes filter (o.recording .empty).bytes).tracks
      = some n)
    (size : Nat) : (({} : Context).afterAll (o.opened size)).audioTrack = some n := by
  have hlength : ([] : Bytes).length = Document.empty.bytes.length := rfl
  have hevents := ofBytes_laidOut ho hlength
  have hleave (known : Context) : known.afterAll [.leave Element.segment.id] = known := rfl
  rw [Recording.ofBytes, ← Recording.audioTrack_ofEvents, Recording.ofEvents_eq, bytes_recording,
    Document.bytes, hevents, List.length_nil, Event.span_zero, List.nil_append,
    Context.afterAll_append, hleave, ← Context.afterAll_unplaced,
    o.opened_unplaced _ size, Context.afterAll_unplaced] at hn
  exact hn

theorem audioTrack_eventsBefore {filter : Bool} {n : Nat} (ho : o.Fits .empty)
    (hn : Recording.firstAudio (Recording.ofBytes filter (o.recording .empty).bytes).tracks
      = some n)
    (before : List Cluster) (c : Cluster) (size : Nat) :
    (({} : Context).afterAll (o.eventsBefore before c size)).audioTrack = some n := by
  rw [eventsBefore, Context.afterAll_append]
  exact Context.audioTrack_afterAll_of_some (audioTrack_opened ho hn size) _

theorem leavesIn_walked {d : Document} (hd : d.WellFormed) (parent : ElementId)
    (depth offset : Nat) :
    Event.LeavesIn offset (offset + d.bytes.length) (d.walked parent depth offset) := by
  have hspan := Document.span_bytes hd parent depth offset []
  rw [List.append_nil] at hspan
  rw [← hspan]
  exact .span _ _ _ _ _ (Nat.le_refl _)

theorem leavesIn_opened (ho : o.Fits rest) (size : Nat) :
    Event.LeavesIn 0 o.tracksPlace.stop (o.opened size) := by
  have hheader := leavesIn_walked ho.header_wellFormed Element.ebml.id 1 o.headerPlace.contentOffset
  have htracks := leavesIn_walked ho.tracks_wellFormed Element.tracks.id 2
    o.tracksPlace.contentOffset
  have hplace : o.headerPlace.stop ≤ o.tracksPlace.stop := by
    simp only [tracksPlace, segmentPlace, Document.extent, Extent.stop, Extent.contentOffset]
    omega
  refine .cons rfl (.append (hheader.mono (Nat.zero_le _) hplace) ?_)
  refine .cons rfl (.cons rfl (.cons rfl (.append ?_ (.cons rfl .nil))))
  exact htracks.mono (Nat.zero_le _) (Nat.le_refl _)

theorem leavesIn_eventsBefore (ho : o.Fits rest) (hbefore : ∀ c ∈ before, c.Sized)
    (size : Nat) : Event.LeavesIn 0 (o.contentStart before c) (o.eventsBefore before c size) := by
  have hopened := leavesIn_opened ho size
  have hclusters := leavesIn_walked (Document.wellFormed_ofClusters hbefore) Element.segment.id 1
    o.tracksPlace.stop
  have hstart := contentStart_eq o before c
  refine .append (hopened.mono (Nat.le_refl _) (by omega)) (.append ?_ (.cons rfl .nil))
  exact hclusters.mono (Nat.zero_le _) (by omega)

theorem leavesIn_eventsAfter (o : Opening) (before : List Cluster) (c : Cluster)
    (hafter : (ofClusters after).WellFormed) :
    Event.LeavesIn (o.contentStart before c + c.content.bytes.length)
      (o.contentStart before c + c.content.bytes.length + (ofClusters after).bytes.length)
      (o.eventsAfter before c after) :=
  .cons rfl (.append (leavesIn_walked hafter _ _ _) (.cons rfl .nil))

end Opening

namespace Opening

open Document (ofClusters)

section

variable (filter : Bool) {o : Opening} {before after : List Cluster} {c : Cluster} {n : Nat}
  {content : Bytes}

/-- What is found in a recording whose audio track is known in front of its clusters. -/
theorem frames_holding (hd : (o.recording (ofClusters (before ++ c :: after))).WellFormed)
    (hn : Recording.firstAudio (Recording.ofBytes filter (o.recording .empty).bytes).tracks
      = some n)
    (hcontent : content.length = c.content.bytes.length) :
    let r := Recording.ofBytes filter (o.holding before c after content)
    let start := o.contentStart before c
    let stop := start + content.length
    let known : Context := { audioTrack := some n }
    r.context.audioTrack = some n
      ∧ r.framesWithin 0 start = ({} : Context).packets filter
        (o.eventsBefore before c (o.segment (ofClusters (before ++ c :: after))).bytes.length)
      ∧ r.framesWithin start stop = known.packets filter
        (Event.span Element.cluster.id 2 (content ++ (ofClusters after).bytes) start content.length)
      ∧ r.framesWithin stop (o.holding before c after content).length
        = known.packets filter (o.eventsAfter before c after)
      ∧ r.frames = r.framesWithin 0 start ++ r.framesWithin start stop
        ++ r.framesWithin stop (o.holding before c after content).length := by
  intro r start stop known
  obtain ⟨ho, hbefore, -, -, -, -, -, hafter⟩ := parts_of_wellFormed hd
  have hevents := ofBytes_holding hd hcontent
  have hlength := length_holding o before c after content
  have hfront : Event.LeavesIn 0 start _ := leavesIn_eventsBefore ho hbefore
    (o.segment (ofClusters (before ++ c :: after))).bytes.length
  have hinner : Event.LeavesIn start stop _ := .span Element.cluster.id 2
    (content ++ (ofClusters after).bytes) start content.length (by rw [List.length_append]; omega)
  have hback : Event.LeavesIn stop (o.holding before c after content).length
      (o.eventsAfter before c after) := by
    have hleaves := leavesIn_eventsAfter o before c hafter
    rw [← hcontent] at hleaves
    rw [hlength]
    exact hleaves
  have hknown := audioTrack_eventsBefore ho.empty hn before c
    (o.segment (ofClusters (before ++ c :: after))).bytes.length
  have hparts := Recording.framesWithin_parts filter (Nat.le_add_right ..) hfront hinner hback
    hknown
  rw [← hevents] at hparts
  exact hparts

/-- Whatever the content of a cluster is overwritten with, the audio track and the packets of all
blocks in front of that cluster and behind it stay the same, and between them there are only parts
of the new bytes. -/
theorem frames_damaged_cluster
    (hd : (o.recording (ofClusters (before ++ c :: after))).WellFormed)
    (hn : Recording.firstAudio (Recording.ofBytes filter (o.recording .empty).bytes).tracks
      = some n)
    {g : Bytes} (hg : g.length = c.content.bytes.length) :
    let bytes := (o.recording (ofClusters (before ++ c :: after))).bytes
    let start := o.contentStart before c
    let stop := start + g.length
    let whole := Recording.ofBytes filter bytes
    let damaged := Recording.ofBytes filter (Bytes.overwrite bytes start g)
    damaged.context.audioTrack = some n
      ∧ (∀ packet ∈ damaged.framesWithin start stop, packet <:+: g)
      ∧ damaged.frames = whole.framesWithin 0 start ++ damaged.framesWithin start stop
        ++ whole.framesWithin stop bytes.length
      ∧ whole.frames = whole.framesWithin 0 start ++ whole.framesWithin start stop
        ++ whole.framesWithin stop bytes.length := by
  intro bytes start stop whole damaged
  have hholding : o.holding before c after c.content.bytes = bytes :=
    holding_content o before c after
  have hoverwrite := overwrite_holding o before c after hg
  rw [hholding] at hoverwrite
  have hdamaged : damaged = Recording.ofBytes filter (o.holding before c after g) :=
    congrArg (Recording.ofBytes filter) hoverwrite
  have hlength : (o.holding before c after g).length = bytes.length := by
    rw [← hholding, length_holding, length_holding, hg]
  obtain ⟨-, hbefore, -, hbehind, hall⟩ := frames_holding filter hd hn rfl
  obtain ⟨haudio, hbefore', hwithin', hbehind', hall'⟩ := frames_holding filter hd hn hg
  rw [hholding, ← hg] at hbehind hall
  rw [hholding] at hbefore
  rw [hlength] at hbehind' hall'
  rw [hdamaged]
  refine ⟨haudio, fun packet hpacket => ?_, ?_, hall⟩
  · rw [hwithin'] at hpacket
    obtain ⟨id, place, data, hleaf, hslice⟩ := Context.slice_of_mem_packets hpacket
    have hroom : g.length ≤ (g ++ (ofClusters after).bytes).length := by
      rw [List.length_append]
      omega
    have hdata := (Event.leafWithin_span _ _ _ _ _ hroom hleaf).data_slice
    rw [List.take_left] at hdata
    exact hslice.trans hdata
  · rw [hall', hbefore', hbehind', ← hbefore, ← hbehind]

end

def threeClusters : Bytes :=
  ((oneTrack (.known 1)).recording
    (ofClusters ([oneBlock (.known 1)] ++ oneBlock (.known 1) :: [oneBlock (.known 1)]))).bytes

/-- The start of a track entry that declares an audio track of number 5 and does not end. -/
def strayTrack : Bytes :=
  [0xAE, 0xFF, 0x83, 0x81, 0x02, 0xD7, 0x81, 0x05]

theorem frames_damaged_cluster_strayTrack :
    let start := (oneTrack (.known 1)).contentStart [oneBlock (.known 1)] (oneBlock (.known 1))
    let damaged := Recording.ofBytes true (Bytes.overwrite threeClusters start strayTrack)
    damaged.context.audioTrack = some 1
      ∧ damaged.frames = [[0xFC, 0x01]] ++ [] ++ [[0xFC, 0x01]] := by
  have hwf : ((oneTrack (.known 1)).recording (ofClusters
      ([oneBlock (.known 1)] ++ oneBlock (.known 1) :: [oneBlock (.known 1)]))).WellFormed := by
    decide +kernel
  have hfirst : Recording.firstAudio (Recording.ofBytes true
      ((oneTrack (.known 1)).recording .empty).bytes).tracks = some 1 := by
    decide +kernel
  obtain ⟨haudio, -, hframes, -⟩ := frames_damaged_cluster true hwf hfirst (g := strayTrack) rfl
  refine ⟨haudio, hframes.trans ?_⟩
  decide +kernel

end Opening

end Transmux
