import Transmux.Proofs.BlockFindings
import Transmux.Proofs.CutDocument
import Transmux.Proofs.RemuxedStream

/-! A document that is cut short, converted under a strict policy. A cut inside a header is an
issue, so the conversion is refused. Any other cut is none, and then the packets are those of the
blocks before it, the last one as far as its block goes. -/

namespace Transmux

namespace Finding

/-- What there is of the packet of a block if the input ends at `stop`. -/
def frameUpTo (stop : Nat) : Finding → Option Bytes
  | .block place (.kept b) =>
    let part := b.data.take (stop - place.contentOffset - (place.content - b.data.length))
    if part = [] then none else some part
  | _ => none

/-- Whether an input that ends at `stop` has a part of the packet of a block, but not all of it. -/
def TornAt (stop : Nat) : Finding → Prop
  | .block place (.kept b) => place.stop - b.data.length < stop ∧ stop < place.stop
  | _ => False

instance (stop : Nat) : (f : Finding) → Decidable (f.TornAt stop)
  | .block _ (.kept _) => inferInstanceAs (Decidable (_ ∧ _))
  | .block _ .undecodable | .block _ (.skipped _) | .block _ (.empty _) | .issue _ | .selected _ _
  | .track _ => inferInstanceAs (Decidable False)

end Finding

namespace Context

variable (filter : Bool) (c : Context)

theorem frameUpTo_fate (place : Extent) (payload : Bytes) (stop : Nat) :
    (Finding.block place (c.fate filter payload)).frameUpTo stop
      = (Block.read? payload).bind fun b =>
        let part := b.data.take (stop - place.contentOffset - (place.content - b.data.length))
        if c.drops filter b.track ∨ part = [] then none else some part := by
  rw [fate]
  cases Block.read? payload with
  | none => rfl
  | some b =>
    by_cases hdrop : c.drops filter b.track = true
    · simp [hdrop, Finding.frameUpTo]
    · by_cases hempty : b.data = []
      · simp [hdrop, hempty, Finding.frameUpTo]
      · simp [hdrop, hempty, Finding.frameUpTo]

/-- A block that is read off the beginning of its payload has as much of its packet. -/
theorem frame?_fate_take {place : Extent} {payload : Bytes}
    (hlength : payload.length = place.content) (place' : Extent) (stop : Nat) :
    Recording.frame? (.block place' (c.fate filter (payload.take (stop - place.contentOffset))))
      = (Finding.block place (c.fate filter payload)).frameUpTo stop := by
  rw [frame?_fate, frameUpTo_fate, ← hlength]
  cases hread : Block.read? payload with
  | none => rw [Block.read?_take_of_none hread]; rfl
  | some b =>
    by_cases hdata : payload.length - b.data.length ≤ stop - place.contentOffset
    · rw [Block.read?_take hread hdata]
      rfl
    · have hshort : stop - place.contentOffset < payload.length - b.data.length :=
        Nat.lt_of_not_le hdata
      have hnone : stop - place.contentOffset - (payload.length - b.data.length) = 0 :=
        Nat.sub_eq_zero_of_le (Nat.le_of_lt hshort)
      rw [Block.read?_take_eq_none hread hshort]
      simp [hnone]

theorem frameUpTo_tells_of_le {events : List Event} {stop : Nat}
    (h : ∀ place ∈ events.filterMap Event.leafPlace?, stop ≤ place.contentOffset) :
    (c.tells filter events).filterMap (Finding.frameUpTo stop) = [] := by
  refine List.filterMap_eq_nil_iff.2 fun f hf => ?_
  cases f with
  | block place fate =>
    have hle := h place (mem_leafPlaces_of_block hf)
    cases fate with
    | kept b => simp [Finding.frameUpTo, Nat.sub_eq_zero_of_le hle]
    | _ => rfl
  | _ => rfl

theorem frameUpTo_findings_leave (id : ElementId) (stop : Nat) :
    (c.findings filter (.leave id)).filterMap (Finding.frameUpTo stop) = [] := by
  refine List.filterMap_eq_nil_iff.2 fun f hf => ?_
  rcases mem_findings_leave filter c hf with ⟨_, _, rfl⟩ | ⟨_, rfl⟩ <;> rfl

variable {filter c}

theorem packets_upTo {parent id : ElementId} {stop : Nat} {place : Extent}
    {events whole : List Event} (hplaces : ∀ later ∈ whole.filterMap Event.leafPlace?,
      place.contentOffset ≤ later.contentOffset)
    (hevents : c.packets filter events
      = (c.tells filter whole).filterMap (Finding.frameUpTo stop)) :
    c.packets filter (Event.upTo parent stop id place events)
      = (c.tells filter whole).filterMap (Finding.frameUpTo stop) := by
  have hstart : place.offset ≤ place.contentOffset := Nat.le_add_right ..
  have hnone (hle : stop ≤ place.contentOffset) :
      (c.tells filter whole).filterMap (Finding.frameUpTo stop) = [] :=
    frameUpTo_tells_of_le filter c fun later hlater => Nat.le_trans hle (hplaces later hlater)
  by_cases hbefore : stop ≤ place.offset
  · rw [Event.upTo_of_le hbefore, hnone (Nat.le_trans hbefore hstart)]
    rfl
  · by_cases hheader : place.contentOffset ≤ stop
    · rw [Event.upTo_of_header (Nat.lt_of_not_le hbefore) hheader, hevents]
    · have hsplit : place.HeaderSplitAt stop :=
        ⟨Nat.lt_of_not_le hbefore, Nat.lt_of_not_le hheader⟩
      rw [Event.upTo_of_split hsplit, hnone (Nat.le_of_lt hsplit.2)]
      rfl

end Context

namespace Document

variable {filter : Bool}

theorem le_of_mem_leafPlaces {d : Document} {offset : Nat} {place : Extent}
    (h : place ∈ (d.events offset).filterMap Event.leafPlace?) : offset ≤ place.offset := by
  obtain ⟨id, data, hleaf⟩ := Event.mem_leafPlaces h
  exact le_offset_of_mem_places (List.mem_filterMap.2 ⟨_, hleaf, rfl⟩)

theorem frameUpTo_tells_behind (c : Context) (d : Document) {stop offset : Nat}
    (h : stop ≤ offset) :
    (c.tells filter (d.events offset)).filterMap (Finding.frameUpTo stop) = [] := by
  refine Context.frameUpTo_tells_of_le filter c fun place hplace => ?_
  have hoffset := le_of_mem_leafPlaces hplace
  exact Nat.le_trans h (Nat.le_trans hoffset (Nat.le_add_right ..))

section

variable {id : ElementId} {form : SizeForm} {payload : Bytes} {children next : Document}
  {offset : Nat} {place : Extent}

theorem contentOffset_le_of_leaf
    (h : place ∈ ((leaf id form payload next).events offset).filterMap Event.leafPlace?) :
    (extent offset id form payload.length).contentOffset ≤ place.contentOffset := by
  rcases List.mem_cons.1 h with rfl | hnext
  · exact Nat.le_refl _
  · have hstop := le_of_mem_leafPlaces hnext
    exact Nat.le_trans (Nat.le_add_right ..) (Nat.le_trans hstop (Nat.le_add_right ..))

theorem contentOffset_le_of_master
    (h : place ∈ ((master id form children next).events offset).filterMap Event.leafPlace?) :
    (extent offset id form children.bytes.length).contentOffset ≤ place.contentOffset := by
  rw [events, List.filterMap_cons_none rfl, List.filterMap_append, List.mem_append,
    List.filterMap_cons_none rfl] at h
  rcases h with hchildren | hnext
  · exact Nat.le_trans (le_of_mem_leafPlaces hchildren) (Nat.le_add_right ..)
  · have hstop := le_of_mem_leafPlaces hnext
    exact Nat.le_trans (Nat.le_add_right ..) (Nat.le_trans hstop (Nat.le_add_right ..))

end

/-- A cut leaves of every packet what lies before it. -/
theorem packets_cut {d : Document} (hd : d.WellFormed) (c : Context) (parent : ElementId)
    (stop offset : Nat) :
    c.packets filter (d.cut parent stop offset)
      = (c.tells filter (d.events offset)).filterMap (Finding.frameUpTo stop) := by
  induction d generalizing c parent offset with
  | empty => rfl
  | leaf id form payload next ih =>
    obtain ⟨-, -, -, -, hnext⟩ := hd
    refine Context.packets_upTo (fun _ => contentOffset_le_of_leaf) ?_
    have hfirst : (c.findings filter (.leaf id ((extent offset id form payload.length).upTo stop)
          (payload.take (stop - (extent offset id form payload.length).contentOffset)))).filterMap
          Recording.frame?
        = (c.findings filter (.leaf id (extent offset id form payload.length) payload)).filterMap
          (Finding.frameUpTo stop) := by
      have hlength : payload.length = (extent offset id form payload.length).content := rfl
      have hpart := Context.frame?_fate_take filter c hlength
        ((extent offset id form payload.length).upTo stop) stop
      rw [Context.findings_leaf, Context.findings_leaf]
      split
      · rw [List.filterMap_cons, List.filterMap_cons, hpart, List.filterMap_nil, List.filterMap_nil]
      · rfl
    rw [Context.packets_cons, events, Context.tells, List.filterMap_append, hfirst]
    -- either the leaf is whole, or all that follows it lies behind the cut
    by_cases hin : (extent offset id form payload.length).stop ≤ stop
    · rw [List.take_of_length_le (Extent.content_le_of_stop_le hin), ih hnext]
      rfl
    · have hbehind := Nat.le_of_not_le hin
      rw [cut_of_le hbehind, frameUpTo_tells_behind _ next hbehind]
      rfl
  | master id form children next ihchildren ihnext =>
    obtain ⟨-, -, -, -, hchildren, hnext⟩ := hd
    refine Context.packets_upTo (fun _ => contentOffset_le_of_master) ?_
    rw [Context.packets_cons, Context.frame?_findings_of_not_leaf _ _ rfl, Context.packets_append,
      ihchildren hchildren, events, Context.tells, Context.tells_append, Context.tells]
    simp only [List.filterMap_append, Context.frameUpTo_findings_leave, List.nil_append]
    by_cases hin : (extent offset id form children.bytes.length).stop ≤ stop
    · rw [cut_of_ge hchildren id hin, Context.packets_cons, ihnext hnext,
        Context.frame?_findings_of_not_leaf _ _ rfl]
      rfl
    · have hbehind := Nat.le_of_not_le hin
      rw [cut_of_le hbehind, frameUpTo_tells_behind _ next hbehind, Context.packets_cons,
        Context.frame?_findings_of_not_leaf _ _ rfl]
      rfl

end Document

namespace Finding

/-- A packet has bytes, and it is the end of what its block holds. -/
def PacketFits : Finding → Prop
  | .block place (.kept b) => b.data ≠ [] ∧ b.data.length ≤ place.content
  | _ => True

variable {stop : Nat} {place : Extent} {b : Block} {f : Finding}

theorem frameUpTo_of_before (h : stop ≤ place.stop - b.data.length)
    (hfit : b.data.length ≤ place.content) : (block place (.kept b)).frameUpTo stop = none := by
  rw [Extent.stop] at h
  have hnone : stop - place.contentOffset - (place.content - b.data.length) = 0 := by omega
  simp [frameUpTo, hnone]

theorem frameUpTo_of_behind (h : place.stop ≤ stop) (hne : b.data ≠ [])
    (hfit : b.data.length ≤ place.content) :
    (block place (.kept b)).frameUpTo stop = some b.data := by
  rw [Extent.stop] at h
  have hall : b.data.length ≤ stop - place.contentOffset - (place.content - b.data.length) := by
    omega
  simp [frameUpTo, List.take_of_length_le hall, hne]

theorem frameUpTo_of_torn (h : (block place (.kept b)).TornAt stop)
    (hfit : b.data.length ≤ place.content) :
    ∃ part, (block place (.kept b)).frameUpTo stop = some part ∧ part ≠ b.data := by
  obtain ⟨hstart, hstop⟩ := h
  rw [Extent.stop] at hstart hstop
  have hlength : (b.data.take
      (stop - place.contentOffset - (place.content - b.data.length))).length
      = stop - place.contentOffset - (place.content - b.data.length) :=
    List.length_take_of_le (by omega)
  refine ⟨_, if_neg fun hnil => ?_, fun hall => ?_⟩
  · rw [hnil, List.length_nil] at hlength
    omega
  · rw [hall] at hlength
    omega

theorem frameUpTo_of_later (hplace : ∀ place, f.place? = some place → stop ≤ place.offset)
    (hfit : f.PacketFits) : f.frameUpTo stop = none ∧ ¬ f.TornAt stop := by
  cases f with
  | block place fate =>
    cases fate with
    | kept b =>
      have hle := hplace place rfl
      have hstop : place.stop = place.offset + place.header + place.content := rfl
      have hdata := hfit.2
      exact ⟨frameUpTo_of_before (by omega) hdata, fun htorn => by
        have hstart := htorn.1
        omega⟩
    | _ => exact ⟨rfl, id⟩
  | _ => exact ⟨rfl, id⟩

/-- Of findings in order, the packets up to a cut are the first ones just if none is torn by it. -/
theorem prefix_frameUpTo_iff {fs : List Finding} (hfits : ∀ f ∈ fs, f.PacketFits)
    (hplaces : (fs.filterMap place?).Pairwise fun a b => a.stop ≤ b.offset) :
    fs.filterMap (frameUpTo stop) <+: fs.filterMap Recording.frame?
      ↔ ∀ f ∈ fs, ¬ f.TornAt stop := by
  induction fs with
  | nil => simp
  | cons f fs ih =>
    obtain ⟨hfit, hrest⟩ := List.forall_mem_cons.1 hfits
    have htail := ih hrest (hplaces.sublist ((List.sublist_cons_self f fs).filterMap _))
    have hskip (hframe : Recording.frame? f = none) (hpart : f.frameUpTo stop = none)
        (htorn : ¬ f.TornAt stop) : (f :: fs).filterMap (frameUpTo stop)
          <+: (f :: fs).filterMap Recording.frame? ↔ ∀ f' ∈ f :: fs, ¬ f'.TornAt stop := by
      rw [List.filterMap_cons_none hframe, List.filterMap_cons_none hpart, htail,
        List.forall_mem_cons, and_iff_right htorn]
    cases f with
    | block place fate =>
      cases fate with
      | kept b =>
        obtain ⟨hne, hdata⟩ := hfit
        by_cases hwhole : place.stop ≤ stop
        · have htorn : ¬ (block place (.kept b)).TornAt stop := fun h =>
            Nat.not_lt.2 hwhole h.2
          rw [List.filterMap_cons_some (frameUpTo_of_behind hwhole hne hdata),
            List.filterMap_cons_some (show Recording.frame? _ = some b.data from rfl),
            List.cons_prefix_cons, and_iff_right rfl, htail, List.forall_mem_cons,
            and_iff_right htorn]
        · -- what is found behind this block lies behind the cut
          have hlater : ∀ f ∈ fs, f.frameUpTo stop = none ∧ ¬ f.TornAt stop := by
            intro f hf
            refine frameUpTo_of_later (fun later hplace => ?_) (hrest f hf)
            have hmem : later ∈ fs.filterMap place? := List.mem_filterMap.2 ⟨f, hf, hplace⟩
            have horder := List.rel_of_pairwise_cons hplaces hmem
            omega
          have hnone : fs.filterMap (frameUpTo stop) = [] :=
            List.filterMap_eq_nil_iff.2 fun f hf => (hlater f hf).1
          have hothers : ∀ f ∈ fs, ¬ f.TornAt stop := fun f hf => (hlater f hf).2
          rw [List.forall_mem_cons, and_iff_left hothers]
          by_cases htorn : (block place (.kept b)).TornAt stop
          · obtain ⟨part, hpart, hproper⟩ := frameUpTo_of_torn htorn hdata
            rw [List.filterMap_cons_some hpart, hnone,
              List.filterMap_cons_some (show Recording.frame? _ = some b.data from rfl),
              List.cons_prefix_cons]
            exact iff_of_false (fun h => hproper h.1) (not_not_intro htorn)
          · have hbefore : stop ≤ place.stop - b.data.length := Nat.le_of_not_lt fun hstart =>
              htorn ⟨hstart, Nat.lt_of_not_le hwhole⟩
            rw [List.filterMap_cons_none (frameUpTo_of_before hbefore hdata), hnone]
            exact iff_of_true (List.nil_prefix ..) htorn
      | _ => exact hskip rfl rfl id
    | _ => exact hskip rfl rfl id

end Finding

namespace Recording

theorem packetFits_of_mem {filter : Bool} {bytes : Bytes} {f : Finding}
    (h : f ∈ (ofBytes filter bytes).findings) : f.PacketFits := by
  rw [ofBytes, ofEvents_eq, Event.ofBytes_eq_span] at h
  cases f with
  | block place fate =>
    cases fate with
    | kept b =>
      obtain ⟨id, data, hleaf, before, hfate⟩ := Context.block_mem_tells filter {} h
      obtain ⟨hread, hne⟩ := Context.fate_eq_kept hfate
      have hlength := (Event.leafWithin_span _ _ _ _ _ (Nat.le_refl _) hleaf).length_eq
      exact ⟨hne, hlength ▸ (Block.data_suffix hread).length_le⟩
    | _ => trivial
  | _ => trivial

theorem pairwise_places (filter : Bool) (bytes : Bytes) :
    ((ofBytes filter bytes).findings.filterMap Finding.place?).Pairwise
      fun a b => a.stop ≤ b.offset := by
  have horder := Event.pairwise_leafPlaces_span Event.root 0 bytes 0 bytes.length (Nat.le_refl _)
  rw [← Event.ofBytes_eq_span] at horder
  rw [ofBytes, ofEvents_eq]
  exact horder.sublist (Context.places_tells filter {} _)

variable {d : Document}

theorem frames_take_document (filter : Bool) (hd : d.WellFormed) (hdepth : d.depth ≤ Event.maxDepth)
    (n : Nat) :
    (ofBytes filter (d.bytes.take n)).frames
      = (ofBytes filter d.bytes).findings.filterMap (Finding.frameUpTo n) := by
  rw [ofBytes, Document.ofBytes_take hd hdepth, ofBytes, Document.ofBytes_bytes hd hdepth,
    ofEvents_eq, ofEvents_eq]
  exact Document.packets_cut hd {} Event.root n 0

theorem issues_take_document (filter : Bool) (hd : d.WellFormed) (hdepth : d.depth ≤ Event.maxDepth)
    (n : Nat) :
    (ofBytes filter (d.bytes.take n)).issues.map Issue.offset
      = ((d.places 0).filter fun place => place.HeaderSplitAt n).map Extent.offset := by
  rw [ofBytes, Document.ofBytes_take hd hdepth, issues_ofEvents, Document.issues_cut]

end Recording

namespace Remux

variable {o : Options} {drawn : Except String UInt32} {r : Recording} {issue : Issue}

theorem convert_truncated_iff (hstrict : o.parsePolicy = .strict) :
    (convert o drawn r).result = .error (.truncated issue) ↔ r.issues.head? = some issue := by
  have hrefusal : refusal? o r = (r.issues.head?.map RemuxError.truncated).or
      (if r.frames = [] then some .noFrames else none) := by
    rw [refusal?, hstrict]
    cases r.issues <;> rfl
  cases hissues : r.issues.head? with
  | some first =>
    rw [hissues] at hrefusal
    rw [convert, hrefusal]
    simp
  | none =>
    refine iff_of_false (fun hresult => ?_) (by simp)
    rw [hissues] at hrefusal
    by_cases hframes : r.frames = []
    · simp [convert, hrefusal, hframes] at hresult
    · cases hserial : o.serial.elim drawn .ok with
      | error cause => simp [convert, hrefusal, hframes, hserial] at hresult
      | ok serial =>
        have hwrite : (write o r serial).result = .error (.truncated issue) := by
          simpa [convert, hrefusal, hframes, hserial] using hresult
        by_cases hroom : o.limits.isReservable = true
        · rw [write, if_pos hroom] at hwrite
          cases hsize : (Ogg.Cut.ofPackets o.limits r.frames).oversized <;>
            simp [writePages, hsize] at hwrite
        · rw [write, if_neg hroom] at hwrite
          cases hwrite

theorem convert_packets {out : RemuxOutput} (hout : (convert o drawn r).result = .ok out) :
    ∃ pages, MadeOf o.vendor out pages
      ∧ ((pages.drop 2).mapM Ogg.Page.packets?).map List.flatten = some r.frames := by
  obtain ⟨hrefusal, serial, -, -, hsize, rfl⟩ := convert_eq_ok_iff.1 hout
  exact ⟨streamPages o r serial, madeOf_output (frames_ne_nil_of_refusal? hrefusal) hsize,
    packets_streamPages hsize⟩

/-- Under a strict policy, a document that is cut short is refused as truncated just if the cut
falls into a header. If it is converted, its packets are those of the blocks before the cut, and
they are packets of the document just if the cut does not fall into a packet. -/
theorem remux_cut_document (drawn : Except String UInt32) {d : Document} (hd : d.WellFormed)
    (hdepth : d.depth ≤ Event.maxDepth) (hstrict : o.parsePolicy = .strict) {n : Nat}
    (hinput : Bytes.startsWith (d.bytes.take n) Ogg.Page.capture = false) :
    let whole := Recording.ofBytes o.filterAudioTrack d.bytes
    let result := (remux o drawn (d.bytes.take n)).result
    (∀ place ∈ d.places 0, place.HeaderSplitAt n → ∃ issue, result = .error (.truncated issue))
      ∧ (∀ issue, result = .error (.truncated issue) →
        ∃ place ∈ d.places 0, place.HeaderSplitAt n ∧ issue.offset = place.offset)
      ∧ ∀ out, result = .ok out → ∃ pages packets, MadeOf o.vendor out pages
        ∧ ((pages.drop 2).mapM Ogg.Page.packets?).map List.flatten = some packets
        ∧ packets = whole.findings.filterMap (Finding.frameUpTo n)
        ∧ (packets <+: whole.frames ↔ ∀ f ∈ whole.findings, ¬ f.TornAt n) := by
  intro whole result
  have hresult : result
      = (convert o drawn (Recording.ofBytes o.filterAudioTrack (d.bytes.take n))).result :=
    remux_result hinput
  have hissues := Recording.issues_take_document o.filterAudioTrack hd hdepth n
  rw [hresult]
  refine ⟨fun place hplace hsplit => ?_, fun issue herror => ?_, fun out hout => ?_⟩
  · have hfiltered : place ∈ (d.places 0).filter fun place => place.HeaderSplitAt n :=
      List.mem_filter.2 ⟨hplace, by simpa using hsplit⟩
    have hnoted := List.mem_map_of_mem (f := Extent.offset) hfiltered
    rw [← hissues] at hnoted
    obtain ⟨issue, hissue, -⟩ := List.mem_map.1 hnoted
    have hhead := List.head?_eq_some_head (List.ne_nil_of_mem hissue)
    exact ⟨_, (convert_truncated_iff hstrict).2 hhead⟩
  · have hissue := List.mem_of_head? ((convert_truncated_iff hstrict).1 herror)
    have hnoted := List.mem_map_of_mem (f := Issue.offset) hissue
    rw [hissues] at hnoted
    obtain ⟨place, hfiltered, hoffset⟩ := List.mem_map.1 hnoted
    obtain ⟨hplace, hsplit⟩ := List.mem_filter.1 hfiltered
    exact ⟨place, hplace, by simpa using hsplit, hoffset.symm⟩
  · obtain ⟨pages, hmade, hpackets⟩ := convert_packets hout
    refine ⟨pages, _, hmade, hpackets, Recording.frames_take_document _ hd hdepth n, ?_⟩
    rw [Recording.frames_take_document _ hd hdepth n]
    exact Finding.prefix_frameUpTo_iff (fun f hf => Recording.packetFits_of_mem hf)
      (Recording.pairwise_places _ _)

def strictly : Options :=
  { parsePolicy := .strict }

/-- The last byte of a recording is the last one of its packet. -/
theorem remux_allSized_torn :
    (remux strictly (.ok 7) (Document.allSized.bytes.take 36)).result
      = .ok (output strictly (Recording.ofBytes true (Document.allSized.bytes.take 36)) 7) :=
  remux_eq_output (by decide) (by decide +kernel) rfl (by decide) (by decide +kernel)

theorem remux_cut_document_allSized :
    (∃ issue, (remux strictly (.ok 7) (Document.allSized.bytes.take 30)).result
        = .error (.truncated issue))
      ∧ ∃ out pages packets,
        (remux strictly (.ok 7) (Document.allSized.bytes.take 36)).result = .ok out
        ∧ MadeOf strictly.vendor out pages
        ∧ ((pages.drop 2).mapM Ogg.Page.packets?).map List.flatten = some packets
        ∧ packets = [[7]] := by
  have hwf : Document.allSized.WellFormed := by decide
  have hdepth : Document.allSized.depth ≤ Event.maxDepth := by decide
  obtain ⟨hsplit, -, -⟩ := remux_cut_document (.ok 7) hwf hdepth (o := strictly) rfl (n := 30)
    (by decide)
  obtain ⟨-, -, hkept⟩ := remux_cut_document (.ok 7) hwf hdepth (o := strictly) rfl (n := 36)
    (by decide)
  obtain ⟨pages, packets, hmade, hread, hpackets, -⟩ := hkept _ remux_allSized_torn
  exact ⟨hsplit ⟨29, 2, 6⟩ (by decide) (by decide), _, pages, packets, remux_allSized_torn, hmade,
    hread, hpackets.trans (by decide +kernel)⟩

/-- A strict conversion of a document less its last byte has a packet that the document has not. -/
theorem torn_packet_written :
    Document.allSized.WellFormed ∧ Document.allSized.IsSized
      ∧ Document.allSized.depth ≤ Event.maxDepth ∧ Document.allSized.bytes.length = 37
      ∧ ∃ out pages, (remux strictly (.ok 7) (Document.allSized.bytes.take 36)).result = .ok out
        ∧ MadeOf strictly.vendor out pages
        ∧ ((pages.drop 2).mapM Ogg.Page.packets?).map List.flatten = some [[7]]
        ∧ ¬ [[7]] <+: (Recording.ofBytes true Document.allSized.bytes).frames := by
  have hresult := remux_allSized_torn
  rw [remux_result (by decide)] at hresult
  obtain ⟨pages, hmade, hpackets⟩ := convert_packets hresult
  have htorn : (Recording.ofBytes true (Document.allSized.bytes.take 36)).frames = [[7]] := by
    decide +kernel
  have hwhole : (Recording.ofBytes true Document.allSized.bytes).frames = [[7, 8]] := by
    decide +kernel
  have hsized : Document.allSized.IsSized := ⟨rfl, ⟨rfl, ⟨rfl, rfl, trivial⟩, rfl, ⟨rfl, trivial⟩,
    trivial⟩, trivial⟩
  rw [← htorn, hwhole]
  exact ⟨by decide, hsized, by decide, by decide, _, pages, remux_allSized_torn, hmade, hpackets,
    by rw [htorn]; decide⟩

end Remux

end Transmux
