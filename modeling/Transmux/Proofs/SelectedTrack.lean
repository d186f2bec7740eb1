import Mathlib.Data.List.Pairwise
import Transmux.Proofs.IdentificationHeader
import Transmux.Proofs.TrackEntries

/-! The track whose blocks are wanted, as a written document resolves it. What decoders are told is
what its entry says to them, and no result depends on the order in which an entry tells its
parts. -/

namespace Transmux

namespace Context

section

variable {c : Context} {n : Nat} (h : c.audioTrack = some n)

include h

/-- What decoders are told stays as it is once the audio track is known. -/
theorem codecPrivate_after_of_some (e : Event) : (c.after e).codecPrivate = c.codecPrivate := by
  cases e with
  | stopped => rfl
  | enter id place =>
    rw [after]
    split <;> rfl
  | leave id =>
    rw [after]
    split
    · cases c.entry with
      | none => rfl
      | some t => simp [closeEntry, h]
    · rfl
  | leaf id place data =>
    rw [after]
    cases Element.ofId? id with
    | none => rfl
    | some k =>
      cases k with
      | codecPrivate => simp [readLeaf, describe, h]
      | _ => rfl

theorem codecPrivate_afterAll_of_some (events : List Event) :
    (c.afterAll events).codecPrivate = c.codecPrivate := by
  induction events generalizing c with
  | nil => rfl
  | cons e events ih =>
    have hafter : (c.after e).audioTrack = some n := audioTrack_afterAll_of_some h [e]
    exact (ih hafter).trans (codecPrivate_after_of_some h e)

end

theorem closed?_eq_some {c : Context} {e : Event} {t : Track} (h : c.closed? e = some t) :
    c.after e = c.closeEntry t := by
  cases e with
  | leave id =>
    rw [closed?] at h
    split at h
    · next hid => rw [after, if_pos hid, h, Option.elim_some]
    · cases h
  | _ => cases h

theorem audioTrack_after_eq_bind {c : Context} (hc : c.audioTrack = none) (e : Event) :
    (c.after e).audioTrack = (c.closed? e).bind Track.audioNumber? := by
  rw [audioTrack_after false, track?_findings_eq, hc, Option.none_or, Recording.firstAudio]
  cases c.closed? e with
  | none => rfl
  | some t => exact List.findSome?_singleton

/-- The end of an audio entry passes on what it says to decoders. -/
theorem codecPrivate_closeEntry {c : Context} (hc : c.audioTrack = none) {t : Track}
    (ht : t.audioNumber?.isSome) :
    (c.closeEntry t).codecPrivate = t.codecPrivate.or c.codecPrivate := by
  have hkind : t.kind = .audio := by
    rw [Track.audioNumber?] at ht
    by_contra hkind
    rw [if_neg hkind] at ht
    cases ht
  rw [closeEntry, if_pos ⟨hkind, hc⟩]

/-- The track that is selected decides what decoders are told, if its entry says so. -/
theorem codecPrivate_afterAll_of_selected {c : Context} (hc : c.audioTrack = none)
    {events : List Event} {t : Track} {p : Bytes}
    (ht : (c.tracks events).find? (fun t => t.audioNumber?.isSome) = some t)
    (hp : t.codecPrivate = some p) : (c.afterAll events).codecPrivate = some p := by
  induction events generalizing c with
  | nil => cases ht
  | cons e events ih =>
    have haudio := audioTrack_after_eq_bind hc e
    rw [tracks, List.find?_append] at ht
    cases hclosed : c.closed? e with
    | none =>
      rw [hclosed] at ht haudio
      exact ih haudio ht
    | some t' =>
      rw [hclosed, Option.bind_some] at haudio
      rw [hclosed, Option.toList_some, List.find?_singleton] at ht
      cases hn : t'.audioNumber? with
      | none =>
        rw [hn] at ht haudio
        exact ih haudio ht
      | some n =>
        rw [hn] at ht haudio
        obtain rfl : t' = t := Option.some.inj ht
        have hsome : t'.audioNumber?.isSome := by rw [hn]; rfl
        calc ((c.after e).afterAll events).codecPrivate = (c.after e).codecPrivate :=
              codecPrivate_afterAll_of_some haudio events
          _ = t'.codecPrivate.or c.codecPrivate := by
              rw [closed?_eq_some hclosed, codecPrivate_closeEntry hc hsome]
          _ = some p := by rw [hp, Option.some_or]

end Context

namespace Element

/-- The elements that say something of a track or of its audio. -/
def described : List Element :=
  [trackNumber, trackType, codecId, codecPrivate, channels, samplingFrequency]

end Element

namespace Context

theorem readLeaf_of_not_mem (c : Context) {k : Element} (h : k ∉ Element.described) (data : Bytes) :
    c.readLeaf k data = c := by
  cases k with
  | trackNumber | trackType | codecId | codecPrivate | channels | samplingFrequency =>
    exact absurd (by decide) h
  | _ => rfl

/-- Each kind of leaf has a part of the context to itself. -/
theorem readLeaf_comm (c : Context) {k k' : Element} (h : k ≠ k') (data data' : Bytes) :
    (c.readLeaf k data).readLeaf k' data' = (c.readLeaf k' data').readLeaf k data := by
  obtain ⟨_, _, _, audioTrack, entry⟩ := c
  cases audioTrack <;> cases entry <;> cases k with
  | trackNumber | trackType | codecId | codecPrivate | channels | samplingFrequency =>
    cases k' <;> first | exact absurd rfl h | rfl
  | _ => rfl

theorem read_comm (c : Context) {x y : ElementId × Bytes}
    (h : ∀ k ∈ Element.described, k.payload? x = none ∨ k.payload? y = none) :
    (c.read x).read y = (c.read y).read x := by
  simp only [read, after]
  cases hx : Element.ofId? x.1 with
  | none => rfl
  | some k =>
    cases hy : Element.ofId? y.1 with
    | none => rfl
    | some k' =>
      simp only [Option.elim_some]
      by_cases hk : k = k'
      · subst hk
        have hnot : k ∉ Element.described := by
          intro hmem
          simpa [Element.payload?, hx, hy] using h k hmem
        simp only [readLeaf_of_not_mem _ hnot]
      · exact readLeaf_comm c hk x.2 y.2

end Context

namespace Document

/-- What stands in a track entry that holds no other one and no block and says nothing twice. -/
structure IsPlainEntry (d : Document) : Prop where
  entries_eq_nil : d.entries = []
  isBlock_eq_false : ∀ leaf ∈ d.leaves, leaf.1.isBlock = false
  length_payloads_le : ∀ k ∈ Element.described, (d.payloads k).length ≤ 1

/-- Documents that differ in the order of what stands in their track entries, and in how they spell
their sizes. -/
inductive Reordered : Document → Document → Prop where
  | empty : Reordered empty empty
  | leaf {next next' : Document} (id : ElementId) (form form' : SizeForm) (payload : Bytes)
      (hnext : Reordered next next') :
      Reordered (leaf id form payload next) (leaf id form' payload next')
  | master {children children' next next' : Document} (id : ElementId) (form form' : SizeForm)
      (hchildren : Reordered children children') (hnext : Reordered next next') :
      Reordered (master id form children next) (master id form' children' next')
  | entry {children children' next next' : Document} (form form' : SizeForm)
      (hentry : children.IsPlainEntry) (hentry' : children'.entries = [])
      (hperm : children.leaves.Perm children'.leaves) (hnext : Reordered next next') :
      Reordered (master Element.trackEntry.id form children next)
        (master Element.trackEntry.id form' children' next')

theorem Reordered.refl (d : Document) : d.Reordered d := by
  induction d with
  | empty => exact .empty
  | leaf id form payload next ih => exact .leaf id form form payload ih
  | master id form children next ihchildren ihnext => exact .master id form form ihchildren ihnext

theorem payload?_eq_none_or {d : Document} {k : Element} (h : (d.payloads k).length ≤ 1)
    {x y : ElementId × Bytes} (hx : x ∈ d.leaves) (hy : y ∈ d.leaves) (hne : x ≠ y) :
    k.payload? x = none ∨ k.payload? y = none := by
  have hnone : (d.payloads k).Pairwise fun _ _ => False := by
    cases hpayloads : d.payloads k with
    | nil => exact List.Pairwise.nil
    | cons p ps =>
      rw [hpayloads, List.length_cons] at h
      obtain rfl := List.eq_nil_of_length_eq_zero (show ps.length = 0 by omega)
      exact List.pairwise_singleton _ _
  have hsymm : Std.Symm fun x y => k.payload? x = none ∨ k.payload? y = none :=
    ⟨fun _ _ => Or.symm⟩
  have hpair : d.leaves.Pairwise fun x y => k.payload? x = none ∨ k.payload? y = none := by
    refine (List.pairwise_filterMap.1 hnone).imp fun {x y} hfalse => ?_
    cases hp : k.payload? x with
    | none => exact Or.inl rfl
    | some p => exact Or.inr (Option.eq_none_iff_forall_ne_some.2 fun q hq => hfalse p hp q hq)
  exact hpair.forall hx hy hne

variable {d d' : Document}

theorem IsPlainEntry.foldl_read (h : d.IsPlainEntry) (hperm : d.leaves.Perm d'.leaves)
    (c : Context) : d.leaves.foldl Context.read c = d'.leaves.foldl Context.read c := by
  refine hperm.foldl_eq' (fun x hx y hy c => ?_) c
  by_cases hxy : x = y
  · rw [hxy]
  · exact Context.read_comm c fun k hk => payload?_eq_none_or (h.length_payloads_le k hk) hx hy hxy

theorem IsPlainEntry.track_eq (h : d.IsPlainEntry) (hperm : d.leaves.Perm d'.leaves) :
    d.track = d'.track := by
  have hopened := Context.entry_opened {} d
  rw [h.foldl_read hperm, Context.entry_opened] at hopened
  exact (Option.some.inj hopened).symm

end Document

namespace Context

theorem tells_of_entries_eq_nil {d : Document} (hd : d.entries = [])
    (hblock : ∀ leaf ∈ d.leaves, leaf.1.isBlock = false) (filter : Bool) (c : Context)
    (offset : Nat) : c.tells filter (d.events offset) = [] := by
  induction d generalizing c offset with
  | empty => rfl
  | leaf id form payload next ih =>
    have hnone : id.isBlock = false := hblock _ List.mem_cons_self
    rw [Document.events, tells, findings_leaf, hnone, ih hd
      (fun leaf hleaf => hblock leaf (List.mem_cons_of_mem _ hleaf))]
    rfl
  | master id form children next ihchildren ihnext =>
    obtain ⟨hid, hchildren, hnext⟩ := Document.entries_master_eq_nil hd
    have hinner := fun leaf hleaf => hblock leaf (List.mem_append_left _ hleaf)
    have hrest := fun leaf hleaf => hblock leaf (List.mem_append_right _ hleaf)
    rw [Document.events_master, tells_append, ihnext hnext hrest, tells_master_of_ne c _ _ hid,
      ihchildren hchildren hinner]
    rfl

/-- Nothing is told of an entry but its track, when it ends. -/
theorem tells_entry {d : Document} (hd : d.entries = [])
    (hblock : ∀ leaf ∈ d.leaves, leaf.1.isBlock = false) (filter : Bool) (c : Context)
    (place : Extent) (offset : Nat) :
    c.tells filter (.enter Element.trackEntry.id place
        :: (d.events offset ++ [.leave Element.trackEntry.id]))
      = (d.leaves.foldl read { c with entry := some {} }).findings filter
          (.leave Element.trackEntry.id) := by
  rw [tells_master, after_enter_entry, tells_of_entries_eq_nil hd hblock,
    afterAll_of_entries_eq_nil hd, List.nil_append]

/-- A walk is told the same by documents that differ in the order of their entries' parts. -/
theorem walk_reordered {d d' : Document} (h : d.Reordered d') (filter : Bool) (c : Context)
    (offset offset' : Nat) :
    c.afterAll (d.events offset) = c.afterAll (d'.events offset')
      ∧ (c.tells filter (d.events offset)).map Finding.unplaced
        = (c.tells filter (d'.events offset')).map Finding.unplaced := by
  induction h generalizing c offset offset' with
  | empty => exact ⟨rfl, rfl⟩
  | leaf id form form' payload _ ih =>
    obtain ⟨hafter, htells⟩ := ih (c.read (id, payload)) _ _
    refine ⟨hafter, ?_⟩
    rw [Document.events, Document.events, tells, tells, List.map_append, List.map_append,
      ← findings_unplaced, ← findings_unplaced]
    exact congrArg _ htells
  | master id form form' _ _ ihchildren ihnext =>
    rw [Document.events_master, Document.events_master, afterAll_append, afterAll_append,
      tells_append, tells_append, afterAll_master, afterAll_master, tells_master, tells_master]
    generalize c.after (.enter id .nowhere) = opened
    obtain ⟨hafter, htells⟩ := ihchildren opened _ _
    rw [hafter]
    obtain ⟨hafter', htells'⟩ := ihnext _ _ _
    refine ⟨hafter', ?_⟩
    rw [List.map_append, List.map_append, List.map_append, List.map_append, htells, htells']
  | entry form form' hentry hentry' hperm _ ih =>
    have hblock := hentry.isBlock_eq_false
    have hblock' := fun leaf hleaf => hblock leaf (hperm.mem_iff.2 hleaf)
    rw [Document.events_master, Document.events_master, afterAll_append, afterAll_append,
      tells_append, tells_append, afterAll_entry hentry.entries_eq_nil, afterAll_entry hentry',
      tells_entry hentry.entries_eq_nil hblock, tells_entry hentry' hblock', afterEntry,
      afterEntry, hentry.foldl_read hperm, hentry.track_eq hperm]
    obtain ⟨hafter, htells⟩ := ih _ _ _
    refine ⟨hafter, ?_⟩
    rw [List.map_append, List.map_append, htells]

end Context

namespace Document

section

variable (filter : Bool) {d : Document} (hd : d.WellFormed) (hdepth : d.depth ≤ Event.maxDepth)

include hd hdepth

theorem ofBytes_bytes_eq : Recording.ofBytes filter d.bytes
    = ⟨({} : Context).afterAll (d.events 0), ({} : Context).tells filter (d.events 0)⟩ := by
  rw [Recording.ofBytes, ofBytes_bytes hd hdepth, Recording.ofEvents_eq]

theorem summary_reordered {d' : Document} (h : d.Reordered d') (hd' : d'.WellFormed)
    (hdepth' : d'.depth ≤ Event.maxDepth) :
    (Recording.ofBytes filter d'.bytes).summary = (Recording.ofBytes filter d.bytes).summary := by
  obtain ⟨hafter, htells⟩ := Context.walk_reordered h filter {} 0 0
  rw [ofBytes_bytes_eq filter hd hdepth, ofBytes_bytes_eq filter hd' hdepth',
    ← Recording.summary_unplaced, ← hafter, ← htells, Recording.summary_unplaced]

variable (hentries : ∀ e ∈ d.entries, e.entries = [])

include hentries

theorem tracks_ofBytes_bytes :
    (Recording.ofBytes filter d.bytes).tracks = d.entries.map track := by
  rw [ofBytes_bytes_eq filter hd hdepth, Recording.tracks, Context.track?_tells_eq,
    (Context.walk_entries hentries rfl 0).2]

theorem audioTrack_ofBytes_bytes : (Recording.ofBytes filter d.bytes).context.audioTrack
    = d.firstAudio?.bind fun e => e.track.number := by
  rw [Recording.ofBytes, Recording.audioTrack_ofEvents, ← Recording.ofBytes,
    tracks_ofBytes_bytes filter hd hdepth hentries, firstAudio_tracks]

theorem codecPrivate_ofBytes_bytes {e : Document} (he : d.firstAudio? = some e) {p : Bytes}
    (hp : (e.payloads .codecPrivate).getLast? = some p) :
    (Recording.ofBytes filter d.bytes).context.codecPrivate = some p := by
  have hfirst : (({} : Context).tracks (d.events 0)).find? (fun t => t.audioNumber?.isSome)
      = some e.track := by
    rw [(Context.walk_entries hentries rfl 0).2, find?_tracks, he, Option.map_some]
  rw [ofBytes_bytes_eq filter hd hdepth]
  exact Context.codecPrivate_afterAll_of_selected rfl hfirst hp

end

/-- The tracks of a written document are what its entries tell, each for itself. The first audio
entry with a number is the one whose blocks are wanted and which decoders are told of, whatever
stands around it and in whatever order. -/
theorem tracks_written_document (filter : Bool) {d : Document} (hd : d.WellFormed)
    (hdepth : d.depth ≤ Event.maxDepth) (hentries : ∀ e ∈ d.entries, e.entries = []) :
    (Recording.ofBytes filter d.bytes).tracks = d.entries.map track
      ∧ (∀ e ∈ d.entries, e.track.kind = .audio ↔ e.IsAudio)
      ∧ (Recording.ofBytes filter d.bytes).context.audioTrack
        = d.firstAudio?.bind (fun e => e.track.number)
      ∧ (∀ e p, d.firstAudio? = some e → (e.payloads .codecPrivate).getLast? = some p →
        (Recording.ofBytes filter d.bytes).context.codecPrivate = some p
          ∧ ∀ o drawn out, o.filterAudioTrack = filter →
            (remux o drawn d.bytes).result = .ok out → out.passedThrough = false →
            ∃ page rest h, Ogg.Source.nextPage ⟨out.data, false⟩ = (.ok (some page), ⟨rest, false⟩)
              ∧ page.packets? = some [h.bytes] ∧ Opus.Head.read? page.body = some h
              ∧ h.preSkip =
                if Bytes.startsWith p Opus.Head.signature = true ∧ 12 ≤ p.length then
                  UInt16.ofNat (Bytes.ofLe ((p.drop 10).take 2))
                else o.defaultPreSkip)
      ∧ ∀ d' : Document, d.Reordered d' → d'.WellFormed → d'.depth ≤ Event.maxDepth →
        (Recording.ofBytes filter d'.bytes).summary
          = (Recording.ofBytes filter d.bytes).summary := by
  refine ⟨tracks_ofBytes_bytes filter hd hdepth hentries, fun e _ => e.kind_track_eq_audio_iff,
    audioTrack_ofBytes_bytes filter hd hdepth hentries, fun e p he hp => ?_,
    fun d' h hd' hdepth' => summary_reordered filter hd hdepth h hd' hdepth'⟩
  have hprivate := codecPrivate_ofBytes_bytes filter hd hdepth hentries he hp
  refine ⟨hprivate, fun o drawn out hfilter hout hdone => ?_⟩
  obtain ⟨page, rest, hpage, hpackets, hhead⟩ := Remux.headPage_of_remux hout hdone
  refine ⟨page, rest, _, hpage, hpackets, hhead, ?_⟩
  rw [Remux.head, hfilter, hprivate, Option.bind_some, Opus.Head.preSkip?_eq]
  split <;> rfl

/-- Elements of so little content that a byte tells its size. -/
def short (k : Element) (payload : Bytes) (next : Document) : Document :=
  .leaf k.id (.known 1) payload next

/-- The front of a header with a pre-skip of 312, cut off after it. -/
def headFront : Bytes :=
  Opus.Head.signature ++ [1, 1, 0x38, 0x01]

/-- An audio entry without a type, in two orders. -/
def opusEntry : Document :=
  short .codecPrivate headFront (short .trackNumber [2] (short .codecId [0x41, 0x5F, 0x58] .empty))

def opusEntry' : Document :=
  short .codecId [0x41, 0x5F, 0x58] (short .codecPrivate headFront (short .trackNumber [2] .empty))

/-- A recording with a video entry, this audio entry and a second one, and a block of track 2. -/
def threeEntries (entry : Document) : Document :=
  .master Element.segment.id (.known 2)
    (.master Element.tracks.id (.known 1)
      (.master Element.trackEntry.id (.known 1)
        (short .trackNumber [1] (short .codecPrivate [9] (short .trackType [1] .empty)))
        (.master Element.trackEntry.id (.known 1) entry
          (.master Element.trackEntry.id (.known 1)
            (short .codecPrivate [7] (short .trackType [2] (short .trackNumber [3] .empty)))
            .empty)))
      (.master Element.cluster.id (.known 1)
        (short .simpleBlock [0x82, 0, 0, 0, 0xFC, 1] .empty) .empty)) .empty

theorem reordered_threeEntries : (threeEntries opusEntry).Reordered (threeEntries opusEntry') :=
  have hentry : opusEntry.IsPlainEntry := ⟨by decide, by decide, by decide⟩
  .master _ _ _ (.master _ _ _ (.master _ _ _ (.refl _)
    (.entry _ _ hentry (by decide) (by decide) (.refl _))) (.refl _)) .empty

theorem remux_threeEntries :
    (remux Remux.withSerial (.ok 0) (threeEntries opusEntry).bytes).result
      = .ok (Remux.output Remux.withSerial
          (Recording.ofBytes true (threeEntries opusEntry).bytes) 7) :=
  Remux.remux_eq_output (by decide) (by decide +kernel) rfl (by decide) (by decide +kernel)

theorem tracks_written_document_threeEntries :
    (Recording.ofBytes true (threeEntries opusEntry).bytes).tracks.length = 3
      ∧ (Recording.ofBytes true (threeEntries opusEntry).bytes).context.audioTrack = some 2
      ∧ (Recording.ofBytes true (threeEntries opusEntry).bytes).context.codecPrivate
        = some headFront
      ∧ (∃ out page rest h,
        (remux Remux.withSerial (.ok 0) (threeEntries opusEntry).bytes).result = .ok out
          ∧ Ogg.Source.nextPage ⟨out.data, false⟩ = (.ok (some page), ⟨rest, false⟩)
          ∧ Opus.Head.read? page.body = some h ∧ h.preSkip = 312)
      ∧ (Recording.ofBytes true (threeEntries opusEntry').bytes).summary
        = (Recording.ofBytes true (threeEntries opusEntry).bytes).summary := by
  have hentry : (threeEntries opusEntry).firstAudio? = some opusEntry := by decide +kernel
  obtain ⟨htracks, -, haudio, htold, horder⟩ :=
    tracks_written_document true (d := threeEntries opusEntry) (by decide) (by decide) (by decide)
  obtain ⟨hprivate, hremux⟩ := htold opusEntry headFront hentry rfl
  obtain ⟨page, rest, h, hpage, -, hread, hskip⟩ :=
    hremux Remux.withSerial (.ok 0) _ rfl remux_threeEntries rfl
  refine ⟨by rw [htracks]; rfl, ?_, hprivate,
    ⟨_, page, rest, h, remux_threeEntries, hpage, hread, hskip⟩,
    horder _ reordered_threeEntries (by decide) (by decide)⟩
  rw [haudio, hentry]
  rfl

end Document

end Transmux
