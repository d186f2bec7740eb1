import Transmux.Proofs.ClusteredDocument
import Transmux.Proofs.TruncatedRecording

/-! Recordings made live leave the sizes of their clusters open. An element of open size goes on to
the end of what it is in, so each cluster is read as one that holds all those after it, and a walk
that goes no deeper than so many masters reads no more than so many clusters. -/

namespace Transmux

theorem SizeForm.bytes_of_open {f : SizeForm} (h : f.isKnown = false) (m n : Nat) :
    f.bytes m = f.bytes n := by
  cases f with
  | known w => cases h
  | unknown w => rfl

namespace Cluster

/-- A cluster of open size, with all sizes in it known. -/
structure LeftOpen (c : Cluster) : Prop where
  form_open : c.form.isKnown = false
  form_fits : c.form.Fits c.content.bytes.length
  content_wellFormed : c.content.WellFormed
  content_sized : c.content.IsSized

/-- How many masters stand inside one another if each cluster holds those after it. -/
def nesting : List Cluster → Nat
  | [] => 0
  | c :: cs => max c.content.depth (nesting cs) + 1

theorem nesting_eq_length {cs : List Cluster} (h : ∀ c ∈ cs, c.content.depth = 0) :
    nesting cs = cs.length := by
  induction cs with
  | nil => rfl
  | cons c cs ih =>
    obtain ⟨hc, hcs⟩ := List.forall_mem_cons.1 h
    rw [nesting, hc, ih hcs, Nat.zero_max, List.length_cons]

end Cluster

namespace Document

/-- Clusters each of which holds those after it. -/
def nestClusters : List Cluster → Document
  | [] => empty
  | c :: cs => master Element.cluster.id c.form (c.content ++ nestClusters cs) empty

theorem nestClusters_cons (c : Cluster) (cs : List Cluster) :
    nestClusters (c :: cs)
      = master Element.cluster.id c.form (c.content ++ nestClusters cs) empty :=
  rfl

theorem bytes_nestClusters {cs : List Cluster} (h : ∀ c ∈ cs, c.form.isKnown = false) :
    (nestClusters cs).bytes = (ofClusters cs).bytes := by
  induction cs with
  | nil => rfl
  | cons c cs ih =>
    obtain ⟨hc, hcs⟩ := List.forall_mem_cons.1 h
    have hform := SizeForm.bytes_of_open hc (c.content ++ nestClusters cs).bytes.length
      c.content.bytes.length
    rw [nestClusters_cons, bytes, hform, bytes_append, ih hcs, ofClusters, bytes, bytes]
    simp

theorem wellFormed_nestClusters {cs : List Cluster} (h : ∀ c ∈ cs, c.LeftOpen) :
    (nestClusters cs).WellFormed := by
  induction cs with
  | nil => exact trivial
  | cons c cs ih =>
    obtain ⟨hc, hcs⟩ := List.forall_mem_cons.1 h
    have hfits : c.form.Fits (c.content ++ nestClusters cs).bytes.length := by
      refine ⟨hc.form_fits.1, hc.form_fits.2.1, fun hknown => ?_⟩
      rw [hc.form_open] at hknown
      cases hknown
    exact ⟨by decide, rfl, hfits, Or.inr rfl,
      hc.content_wellFormed.append hc.content_sized (ih hcs), trivial⟩

theorem depth_nestClusters (cs : List Cluster) : (nestClusters cs).depth = Cluster.nesting cs := by
  induction cs with
  | nil => rfl
  | cons c cs ih =>
    rw [nestClusters_cons, depth, depth_append, ih, depth, Nat.max_zero, Cluster.nesting]

theorem visit_nestClusters (filter : Bool) (cs : List Cluster) :
    (nestClusters cs).tree.visit filter = (ofClusters cs).tree.visit filter := by
  induction cs with
  | nil => rfl
  | cons c cs ih =>
    funext r
    -- the start and the end of a cluster tell nothing, so where they stand does not matter
    have hsilent (r : Recording) : r.add filter (.enter Element.cluster.id .nowhere) = r
        ∧ r.add filter (.leave Element.cluster.id) = r := ⟨rfl, rfl⟩
    simp only [nestClusters, ofClusters, tree, Tree.visit, hsilent, visit_append, ih]

/-- Of clusters without masters in them, a walk reads as many as there are levels left. -/
theorem essences_walked_nestClusters {cs : List Cluster} (h : ∀ c ∈ cs, c.content.depth = 0)
    (parent : ElementId) (depth offset : Nat) :
    Event.essences ((nestClusters cs).walked parent depth offset)
      = Event.essences
        ((nestClusters (cs.take (Event.maxDepth - depth))).walked parent depth offset) := by
  induction cs generalizing parent depth offset with
  | nil => rw [List.take_nil]
  | cons c cs ih =>
    obtain ⟨hc, hcs⟩ := List.forall_mem_cons.1 h
    -- each cluster takes up one level, so one fewer of those after it is read
    by_cases hdeep : Event.maxDepth ≤ depth
    · rw [Nat.sub_eq_zero_of_le hdeep, List.take_zero, nestClusters_cons,
        walked_master_deep _ _ _ _ hdeep]
      rfl
    · have hdepth : depth < Event.maxDepth := Nat.lt_of_not_le hdeep
      have hlevels : Event.maxDepth - depth = Event.maxDepth - (depth + 1) + 1 := by omega
      have hfit : depth + 1 + c.content.depth ≤ Event.maxDepth := by omega
      rw [hlevels, List.take_succ_cons, nestClusters_cons, nestClusters_cons,
        walked_master _ _ _ _ hdepth, walked_master _ _ _ _ hdepth, walked_append _ _ _ hfit,
        walked_append _ _ _ hfit]
      simp only [Event.essences_enter, Event.essences_append, Event.essences_leave]
      rw [ih hcs]
      rfl

theorem ofTree_congr {filter : Bool} {a b : Document}
    (h : a.tree.visit filter = b.tree.visit filter) :
    Recording.ofTree filter a.tree = Recording.ofTree filter b.tree := by
  simp only [Recording.ofTree, h]

end Document

namespace Opening

open Document (ofClusters nestClusters)

variable {o : Opening} {cs : List Cluster}

theorem essences_walked_recording (o : Opening) {a b : Document}
    (h : ∀ offset, Event.essences (a.walked Element.segment.id 1 offset)
      = Event.essences (b.walked Element.segment.id 1 offset)) :
    Event.essences ((o.recording a).walked Event.root 0 0)
      = Event.essences ((o.recording b).walked Event.root 0 0) := by
  have hroot : 0 < Event.maxDepth := by decide
  have hsegment : 0 + 1 < Event.maxDepth := by decide
  simp only [recording, segment, Document.walked_master _ _ _ _ hroot,
    Document.walked_master _ _ _ _ hsegment, Event.essences_enter, Event.essences_append,
    Event.essences_leave, Nat.zero_add, h]
  rfl

theorem wellFormed_recording_nestClusters (ho : o.Fits (ofClusters cs))
    (hcs : ∀ c ∈ cs, c.LeftOpen) : (o.recording (nestClusters cs)).WellFormed :=
  (ho.congr (Document.bytes_nestClusters fun c hc => (hcs c hc).form_open)).wellFormed
    (Document.wellFormed_nestClusters hcs)

theorem bytes_recording_nestClusters (o : Opening) (hcs : ∀ c ∈ cs, c.LeftOpen) :
    (o.recording (nestClusters cs)).bytes = (o.recording (ofClusters cs)).bytes :=
  o.bytes_recording_congr (Document.bytes_nestClusters fun c hc => (hcs c hc).form_open)

theorem ofTree_recording_nestClusters (filter : Bool) (o : Opening) (cs : List Cluster) :
    Recording.ofTree filter (o.recording (nestClusters cs)).tree
      = Recording.ofTree filter (o.recording (ofClusters cs)).tree :=
  Document.ofTree_congr (o.visit_recording_congr (Document.visit_nestClusters filter cs))

theorem issues_open_clusters (filter : Bool) (ho : o.Fits (ofClusters cs))
    (hcs : ∀ c ∈ cs, c.LeftOpen)
    (hdepth : (o.recording (ofClusters cs)).depth ≤ Event.maxDepth) :
    (Recording.ofBytes filter (o.recording (ofClusters cs)).bytes).issues = []
      ↔ Cluster.nesting cs < Event.maxDepth := by
  have hdeep := Opening.depth_recording o (nestClusters cs)
  rw [Document.depth_nestClusters] at hdeep
  rw [Opening.depth_recording] at hdepth
  rw [← bytes_recording_nestClusters o hcs,
    Document.issues_ofBytes_eq_nil_iff filter (wellFormed_recording_nestClusters ho hcs), hdeep]
  omega

theorem summary_open_clusters (filter : Bool) (ho : o.Fits (ofClusters cs))
    (hcs : ∀ c ∈ cs, c.LeftOpen)
    (hdepth : (o.recording (ofClusters cs)).depth ≤ Event.maxDepth)
    (hnesting : Cluster.nesting cs < Event.maxDepth) :
    (Recording.ofBytes filter (o.recording (ofClusters cs)).bytes).summary
      = (Recording.ofTree filter (o.recording (ofClusters cs)).tree).summary := by
  have hdeep : (o.recording (nestClusters cs)).depth ≤ Event.maxDepth := by
    rw [Opening.depth_recording] at hdepth ⊢
    rw [Document.depth_nestClusters]
    omega
  rw [← bytes_recording_nestClusters o hcs,
    Document.summary_ofBytes_bytes filter (wellFormed_recording_nestClusters ho hcs) hdeep,
    ofTree_recording_nestClusters]

theorem frames_open_clusters (filter : Bool) (ho : o.Fits (ofClusters cs))
    (hcs : ∀ c ∈ cs, c.LeftOpen) (hflat : ∀ c ∈ cs, c.content.depth = 0)
    (hdepth : (o.recording (ofClusters cs)).depth ≤ Event.maxDepth) :
    (Recording.ofBytes filter (o.recording (ofClusters cs)).bytes).frames
      = (Recording.ofTree filter
          (o.recording (ofClusters (cs.take (Event.maxDepth - 1)))).tree).frames := by
  have hkept : Event.essences ((o.recording (nestClusters cs)).walked Event.root 0 0)
      = Event.essences
        ((o.recording (nestClusters (cs.take (Event.maxDepth - 1)))).walked Event.root 0 0) :=
    o.essences_walked_recording fun offset =>
      Document.essences_walked_nestClusters hflat Element.segment.id 1 offset
  have hfit : 0 + (o.recording (nestClusters (cs.take (Event.maxDepth - 1)))).depth
      ≤ Event.maxDepth := by
    have hlength : Cluster.nesting (cs.take (Event.maxDepth - 1)) ≤ Event.maxDepth - 1 := by
      rw [Cluster.nesting_eq_length fun c hc => hflat c (List.mem_of_mem_take hc),
        List.length_take]
      exact Nat.min_le_left ..
    rw [Opening.depth_recording] at hdepth ⊢
    rw [Document.depth_nestClusters]
    have hone : 1 ≤ Event.maxDepth := by decide
    omega
  have hsummary := Document.summary_ofTree filter
    (o.recording (nestClusters (cs.take (Event.maxDepth - 1)))) 0
  rw [ofTree_recording_nestClusters] at hsummary
  calc (Recording.ofBytes filter (o.recording (ofClusters cs)).bytes).frames
      = ({} : Context).packets filter
          (Event.essences ((o.recording (nestClusters cs)).walked Event.root 0 0)) := by
        rw [← bytes_recording_nestClusters o hcs, Recording.frames_ofBytes,
          Document.ofBytes_eq_walked (wellFormed_recording_nestClusters ho hcs)]
    _ = (Recording.ofEvents filter
          ((o.recording (nestClusters (cs.take (Event.maxDepth - 1)))).events 0)).frames := by
        rw [hkept, Document.walked_eq_events _ _ hfit, Recording.frames_ofEvents]
    _ = (Recording.ofTree filter
          (o.recording (ofClusters (cs.take (Event.maxDepth - 1)))).tree).frames :=
        (congrArg Recording.Summary.frames hsummary).symm

/-- A recording whose clusters leave their sizes open is read as the same tree with all sizes known
just as far as the clusters, each taken for a part of the one before, do not stand too deep. Of
clusters that hold no masters that is the first sixty-three. -/
theorem summary_live_recording (filter : Bool) (ho : o.Fits (ofClusters cs))
    (hcs : ∀ c ∈ cs, c.LeftOpen)
    (hdepth : (o.recording (ofClusters cs)).depth ≤ Event.maxDepth) :
    let live := Recording.ofBytes filter (o.recording (ofClusters cs)).bytes
    (live.issues = [] ↔ Cluster.nesting cs < Event.maxDepth)
      ∧ (∀ e : Document, e.WellFormed → e.tree = (o.recording (ofClusters cs)).tree →
        (Recording.ofBytes filter e.bytes).issues = []
        ∧ (Cluster.nesting cs < Event.maxDepth →
          live.summary = (Recording.ofBytes filter e.bytes).summary))
      ∧ ((∀ c ∈ cs, c.content.depth = 0) → Cluster.nesting cs = cs.length
        ∧ ∀ e : Document, e.WellFormed →
          e.tree = (o.recording (ofClusters (cs.take (Event.maxDepth - 1)))).tree →
          live.frames = (Recording.ofBytes filter e.bytes).frames) := by
  refine ⟨issues_open_clusters filter ho hcs hdepth, fun e he htree => ⟨?_, fun hnesting => ?_⟩,
    fun hflat => ⟨Cluster.nesting_eq_length hflat, fun e he htree => ?_⟩⟩
  · rw [Document.issues_ofBytes_eq_nil_iff filter he, ← Document.depth_tree, htree,
      Document.depth_tree]
    exact hdepth
  · have hedepth : e.depth ≤ Event.maxDepth := by
      rw [← Document.depth_tree, htree, Document.depth_tree]
      exact hdepth
    rw [summary_open_clusters filter ho hcs hdepth hnesting,
      Document.summary_ofBytes_bytes filter he hedepth, htree]
  · have hedepth : e.depth ≤ Event.maxDepth := by
      have htake := Document.depth_ofClusters_take cs (Event.maxDepth - 1)
      rw [Opening.depth_recording] at hdepth
      rw [← Document.depth_tree, htree, Document.depth_tree, Opening.depth_recording]
      omega
    have hread := Document.summary_ofBytes_bytes filter he hedepth
    rw [htree] at hread
    rw [frames_open_clusters filter ho hcs hflat hdepth]
    exact (congrArg Recording.Summary.frames hread).symm

/-- So many clusters of one block each, written live. -/
def liveRecording (n : Nat) : Document :=
  (oneTrack (.unknown 8)).recording (ofClusters (List.replicate n (oneBlock (.unknown 8))))

def sizedRecording (n : Nat) : Document :=
  (oneTrack (.known 2)).recording (ofClusters (List.replicate n (oneBlock (.known 1))))

theorem leftOpen_oneBlock {n : Nat} :
    ∀ c ∈ List.replicate n (oneBlock (.unknown 8)), c.LeftOpen := by
  intro c hc
  rw [List.eq_of_mem_replicate hc]
  exact ⟨rfl, by decide, by decide, rfl, trivial⟩

theorem fits_oneTrack_open (rest : Document) : (oneTrack (.unknown 8)).Fits rest where
  header_wellFormed := by decide
  header_known := rfl
  header_fits := by decide
  segment_fits := ⟨by decide, by decide, fun h => by cases h⟩
  tracks_wellFormed := by decide
  tracks_known := rfl
  tracks_fits := by decide

theorem summary_live_recording_twoClusters :
    (Recording.ofBytes true (liveRecording 2).bytes).issues = []
      ∧ (Recording.ofBytes true (liveRecording 2).bytes).summary
        = (Recording.ofBytes true (sizedRecording 2).bytes).summary := by
  obtain ⟨hissues, hagree, -⟩ := summary_live_recording true (fits_oneTrack_open _)
    (leftOpen_oneBlock (n := 2)) (by decide)
  have hnesting : Cluster.nesting (List.replicate 2 (oneBlock (.unknown 8))) < Event.maxDepth := by
    decide
  have hsized : (sizedRecording 2).WellFormed := by decide +kernel
  exact ⟨hissues.2 hnesting, (hagree (sizedRecording 2) hsized rfl).2 hnesting⟩

/-- Of sixty-four clusters written live the last one is not read. -/
theorem last_cluster_lost :
    (sizedRecording 64).WellFormed ∧ (sizedRecording 64).tree = (liveRecording 64).tree
      ∧ (Recording.ofBytes true (sizedRecording 64).bytes).frames
        = List.replicate 64 [0xFC, 0x01]
      ∧ (Recording.ofBytes true (liveRecording 64).bytes).frames = List.replicate 63 [0xFC, 0x01]
      ∧ (Recording.ofBytes true (liveRecording 64).bytes).issues ≠ [] := by
  have hflat : ∀ c ∈ List.replicate 64 (oneBlock (.unknown 8)), c.content.depth = 0 := by
    intro c hc
    rw [List.eq_of_mem_replicate hc]
    rfl
  have hfits := fits_oneTrack_open (ofClusters (List.replicate 64 (oneBlock (.unknown 8))))
  have hlive := leftOpen_oneBlock (n := 64)
  have hdepth : (liveRecording 64).depth ≤ Event.maxDepth := by decide +kernel
  have hsized : (sizedRecording 64).WellFormed := by decide +kernel
  have hread := Document.summary_ofBytes_bytes true hsized (by decide +kernel)
  refine ⟨hsized, rfl, ?_, ?_, ?_⟩
  · exact (congrArg Recording.Summary.frames hread).trans (by decide +kernel)
  · rw [liveRecording, frames_open_clusters true hfits hlive hflat hdepth]
    decide +kernel
  · rw [liveRecording, Ne, issues_open_clusters true hfits hlive hdepth]
    decide +kernel

end Opening

end Transmux
