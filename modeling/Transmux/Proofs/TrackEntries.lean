import Transmux.Proofs.AudioTrack
import Transmux.Proofs.CodecNames
import Transmux.Proofs.DocumentLeaves

/-! The tracks of a written document. Each entry is one track, described by the leaves in it in
whatever order they stand, and the first audio entry with a number decides which packets are
taken. -/

namespace Transmux

namespace Track

/-- What a leaf of a track entry adds to the description of the track. -/
def readLeaf (t : Track) (k : Element) (data : Bytes) : Track :=
  match k with
  | .trackNumber => { t with number := some (Bytes.word data) }
  | .trackType => { t with type := some (Bytes.word data) }
  | .codecId => { t with codec := some (codecName (Utf8.decodeLossy data)) }
  | .codecPrivate => { t with codecPrivate := some data }
  | _ => t

def read (t : Track) (leaf : ElementId × Bytes) : Track :=
  (Element.ofId? leaf.1).elim t fun k => t.readLeaf k leaf.2

/-- What is described by the leaves of one kind is told by the last of them. -/
theorem foldl_read {α : Type} (view : Track → Option α) (k : Element) (value : Bytes → α)
    (h : ∀ t e data, view (readLeaf t e data) = if e = k then some (value data) else view t)
    (leaves : List (ElementId × Bytes)) (t : Track) :
    view (leaves.foldl read t)
      = ((leaves.filterMap k.payload?).getLast?.map value).or (view t) := by
  have hstep (t : Track) (leaf : ElementId × Bytes) :
      view (t.read leaf) = ((k.payload? leaf).map fun data => some (value data)).getD (view t) := by
    rw [read, Element.payload?]
    cases hid : Element.ofId? leaf.1 with
    | none => rfl
    | some e =>
      rw [Option.elim_some, h]
      by_cases he : e = k
      · simp [he]
      · simp [he]
  rw [foldl_last_told hstep, ← List.map_filterMap, List.getLast?_map]
  cases (leaves.filterMap k.payload?).getLast? <;> rfl

end Track

namespace Document

/-- The track that an entry describes. -/
def track (d : Document) : Track where
  number := (d.payloads .trackNumber).getLast?.map Bytes.word
  type := (d.payloads .trackType).getLast?.map Bytes.word
  codec := (d.payloads .codecId).getLast?.map fun name => Track.codecName (Utf8.decodeLossy name)
  codecPrivate := (d.payloads .codecPrivate).getLast?

theorem foldl_read_leaves (d : Document) : d.leaves.foldl Track.read {} = d.track := by
  have hnumber := Track.foldl_read Track.number .trackNumber Bytes.word
    (by intro t e data; cases e <;> rfl) d.leaves {}
  have htype := Track.foldl_read Track.type .trackType Bytes.word
    (by intro t e data; cases e <;> rfl) d.leaves {}
  have hcodec := Track.foldl_read Track.codec .codecId
    (fun name => Track.codecName (Utf8.decodeLossy name))
    (by intro t e data; cases e <;> rfl) d.leaves {}
  have hprivate := Track.foldl_read Track.codecPrivate .codecPrivate id
    (by intro t e data; cases e <;> rfl) d.leaves {}
  rw [Option.map_id, id] at hprivate
  generalize d.leaves.foldl Track.read {} = t at hnumber htype hcodec hprivate
  obtain ⟨number, type, codec, codecPrivate⟩ := t
  simp only [Option.or_none] at hnumber htype hcodec hprivate
  rw [track, payloads, payloads, payloads, payloads, ← hnumber, ← htype, ← hcodec, ← hprivate]

end Document

namespace Context

/-- What is known after one more leaf, wherever it lies. -/
def read (c : Context) (leaf : ElementId × Bytes) : Context :=
  c.after (.leaf leaf.1 .nowhere leaf.2)

/-- The track whose entry an event ends. -/
def closed? (c : Context) : Event → Option Track
  | .leave id => if Element.ofId? id = some .trackEntry then c.entry else none
  | _ => none

/-- The tracks whose entries end on a walk. -/
def tracks (c : Context) : List Event → List Track
  | [] => []
  | e :: events => (c.closed? e).toList ++ (c.after e).tracks events

section

variable (c : Context)

theorem track?_findings_eq (filter : Bool) (e : Event) :
    (c.findings filter e).filterMap Recording.track? = (c.closed? e).toList := by
  cases e with
  | enter => rfl
  | stopped => rfl
  | leave id =>
    rw [track?_findings_leave, closed?]
    split <;> rfl
  | leaf id place data =>
    rw [findings_leaf]
    split <;> rfl

theorem track?_tells_eq (filter : Bool) (events : List Event) :
    (c.tells filter events).filterMap Recording.track? = c.tracks events := by
  induction events generalizing c with
  | nil => rfl
  | cons e events ih => rw [tells, List.filterMap_append, track?_findings_eq, ih, tracks]

theorem tracks_append (a b : List Event) :
    c.tracks (a ++ b) = c.tracks a ++ (c.afterAll a).tracks b := by
  induction a generalizing c with
  | nil => rfl
  | cons e a ih =>
    rw [List.cons_append, tracks, ih, tracks, List.append_assoc]
    rfl

theorem entry_readLeaf (k : Element) (data : Bytes) :
    (c.readLeaf k data).entry = c.entry.map fun t => t.readLeaf k data := by
  have hsame : c.entry = c.entry.map fun t => t := Option.map_id'.symm
  cases k with
  | codecPrivate =>
    simp only [readLeaf]
    split <;> rfl
  | trackNumber => rfl
  | trackType => rfl
  | codecId => rfl
  | _ => exact hsame

theorem entry_read (leaf : ElementId × Bytes) :
    (c.read leaf).entry = c.entry.map fun t => t.read leaf := by
  rw [read, after]
  simp only [Track.read]
  cases Element.ofId? leaf.1 with
  | none => exact Option.map_id'.symm
  | some k => exact entry_readLeaf c k leaf.2

theorem entry_foldl_read (leaves : List (ElementId × Bytes)) :
    (leaves.foldl read c).entry = c.entry.map fun t => leaves.foldl Track.read t := by
  induction leaves generalizing c with
  | nil => exact Option.map_id'.symm
  | cons leaf leaves ih =>
    rw [List.foldl_cons, ih, entry_read, Option.map_map]
    rfl

theorem entry_closeEntry (t : Track) : (c.closeEntry t).entry = none := by
  rw [closeEntry]
  split <;> rfl

variable (id : ElementId) (place : Extent) (inner : List Event)

/-- A master is walked from its start over what stands in it to its end. -/
theorem afterAll_master :
    c.afterAll (.enter id place :: (inner ++ [.leave id]))
      = ((c.after (.enter id .nowhere)).afterAll inner).after (.leave id) := by
  rw [afterAll, List.foldl_cons, ← afterAll, afterAll_append]
  rfl

theorem tells_master (filter : Bool) :
    c.tells filter (.enter id place :: (inner ++ [.leave id]))
      = (c.after (.enter id .nowhere)).tells filter inner
        ++ ((c.after (.enter id .nowhere)).afterAll inner).findings filter (.leave id) := by
  have hopen : c.after (.enter id place) = c.after (.enter id .nowhere) := rfl
  rw [tells, hopen, tells_append, tells, tells, List.append_nil]
  rfl

theorem tracks_master :
    c.tracks (.enter id place :: (inner ++ [.leave id]))
      = (c.after (.enter id .nowhere)).tracks inner
        ++ (((c.after (.enter id .nowhere)).afterAll inner).closed? (.leave id)).toList := by
  rw [← track?_tells_eq _ false, tells_master, List.filterMap_append, track?_tells_eq,
    track?_findings_eq]

variable {id} (h : id ≠ Element.trackEntry.id)

include h

theorem ofId?_ne_trackEntry : Element.ofId? id ≠ some .trackEntry :=
  fun hid => h (Element.id_of_ofId? hid).symm

/-- A master that is no track entry is walked as what stands in it. -/
theorem afterAll_master_of_ne :
    c.afterAll (.enter id place :: (inner ++ [.leave id])) = c.afterAll inner := by
  rw [afterAll_master, after, after, if_neg (ofId?_ne_trackEntry h),
    if_neg (ofId?_ne_trackEntry h)]

theorem tells_master_of_ne (filter : Bool) :
    c.tells filter (.enter id place :: (inner ++ [.leave id])) = c.tells filter inner := by
  rw [tells_master, after, findings, if_neg (ofId?_ne_trackEntry h),
    if_neg (ofId?_ne_trackEntry h), List.append_nil]

theorem tracks_master_of_ne :
    c.tracks (.enter id place :: (inner ++ [.leave id])) = c.tracks inner := by
  rw [← track?_tells_eq _ false, tells_master_of_ne c place inner h, track?_tells_eq]

end

/-- A walk of a part without track entries reads its leaves one after the other. -/
theorem afterAll_of_entries_eq_nil {d : Document} (hd : d.entries = []) (c : Context)
    (offset : Nat) : c.afterAll (d.events offset) = d.leaves.foldl read c := by
  induction d generalizing c offset with
  | empty => rfl
  | leaf id form payload next ih => exact ih hd (c.read (id, payload)) _
  | master id form children next ihchildren ihnext =>
    obtain ⟨hid, hchildren, hnext⟩ := Document.entries_master_eq_nil hd
    rw [Document.events_master, afterAll_append, afterAll_master_of_ne c _ _ hid,
      ihchildren hchildren, ihnext hnext, Document.leaves, List.foldl_append]

theorem tracks_of_entries_eq_nil {d : Document} (hd : d.entries = []) (c : Context)
    (offset : Nat) : c.tracks (d.events offset) = [] := by
  induction d generalizing c offset with
  | empty => rfl
  | leaf id form payload next ih => exact ih hd (c.read (id, payload)) _
  | master id form children next ihchildren ihnext =>
    obtain ⟨hid, hchildren, hnext⟩ := Document.entries_master_eq_nil hd
    rw [Document.events_master, tracks_append, tracks_master_of_ne c _ _ hid, ihchildren hchildren,
      ihnext hnext]
    rfl

/-- What is known after a whole track entry. -/
def afterEntry (c : Context) (d : Document) : Context :=
  (d.leaves.foldl read { c with entry := some {} }).closeEntry d.track

theorem after_enter_entry (c : Context) :
    c.after (.enter Element.trackEntry.id .nowhere) = { c with entry := some {} } :=
  rfl

theorem entry_opened (c : Context) (d : Document) :
    (d.leaves.foldl read { c with entry := some {} }).entry = some d.track := by
  rw [entry_foldl_read, Option.map_some, Document.foldl_read_leaves]

section

variable {d : Document} (hd : d.entries = []) (c : Context) (place : Extent) (offset : Nat)

include hd

theorem afterAll_entry :
    c.afterAll (.enter Element.trackEntry.id place
      :: (d.events offset ++ [.leave Element.trackEntry.id])) = c.afterEntry d := by
  rw [afterAll_master, after_enter_entry, afterAll_of_entries_eq_nil hd, after,
    if_pos (Element.ofId?_id .trackEntry), entry_opened]
  rfl

theorem tracks_entry :
    c.tracks (.enter Element.trackEntry.id place
      :: (d.events offset ++ [.leave Element.trackEntry.id])) = [d.track] := by
  rw [tracks_master, after_enter_entry, tracks_of_entries_eq_nil hd,
    afterAll_of_entries_eq_nil hd, closed?, if_pos (Element.ofId?_id .trackEntry), entry_opened]
  rfl

end

/-- A walk meets the tracks of the entries, one for each and in their order. -/
theorem walk_entries {d : Document} (hd : ∀ e ∈ d.entries, e.entries = []) {c : Context}
    (hc : c.entry = none) (offset : Nat) :
    (c.afterAll (d.events offset)).entry = none
      ∧ c.tracks (d.events offset) = d.entries.map Document.track := by
  induction d generalizing c offset with
  | empty => exact ⟨hc, rfl⟩
  | leaf id form payload next ih =>
    have hread : (c.read (id, payload)).entry = none := by
      rw [entry_read, hc, Option.map_none]
    exact ih hd hread _
  | master id form children next ihchildren ihnext =>
    rw [Document.events_master]
    by_cases hid : id = Element.trackEntry.id
    · subst hid
      rw [Document.entries_of_eq] at hd ⊢
      have hchildren := hd children List.mem_cons_self
      have hclosed : (c.afterEntry children).entry = none := entry_closeEntry ..
      obtain ⟨hnone, hrest⟩ := ihnext (fun e he => hd e (List.mem_cons_of_mem _ he)) hclosed _
      rw [afterAll_append, tracks_append, afterAll_entry hchildren, tracks_entry hchildren]
      exact ⟨hnone, congrArg (children.track :: ·) hrest⟩
    · rw [Document.entries_of_ne hid] at hd ⊢
      obtain ⟨hnone, hinner⟩ := ihchildren (fun e he => hd e (List.mem_append_left _ he)) hc _
      obtain ⟨hnone', hrest⟩ := ihnext (fun e he => hd e (List.mem_append_right _ he)) hnone _
      rw [afterAll_append, tracks_append, afterAll_master_of_ne c _ _ hid,
        tracks_master_of_ne c _ _ hid]
      exact ⟨hnone', by rw [hinner, hrest, List.map_append]⟩

end Context

namespace Document

/-- An entry is one of an audio track if its type is that of audio, or if its type is neither that
of audio nor that of video, or it has none, and its codec id starts with "A_". -/
def IsAudio (d : Document) : Prop :=
  d.track.type = some 2
    ∨ d.track.type ≠ some 1 ∧ d.track.type ≠ some 2
      ∧ ∃ name, (d.payloads .codecId).getLast? = some name
        ∧ Bytes.startsWith name [0x41, 0x5F] = true

theorem kindOfCodec_track_iff (d : Document) :
    d.track.codec.elim .other Track.kindOfCodec = .audio
      ↔ ∃ name, (d.payloads .codecId).getLast? = some name
        ∧ Bytes.startsWith name [0x41, 0x5F] = true := by
  have hcodec : d.track.codec = (d.payloads .codecId).getLast?.map fun name =>
      Track.codecName (Utf8.decodeLossy name) := rfl
  rw [hcodec]
  cases (d.payloads .codecId).getLast? with
  | none => simp
  | some name =>
    rw [Option.map_some, Option.elim_some, Track.kindOfCodec_codecName_iff]
    simp

theorem kind_track_eq_audio_iff (d : Document) : d.track.kind = .audio ↔ d.IsAudio := by
  rw [IsAudio, ← kindOfCodec_track_iff, Track.kind, Track.audioType, Track.videoType]
  generalize d.track = t
  by_cases haudio : t.type = some 2
  · simp [haudio]
  · by_cases hvideo : t.type = some 1
    · simp [hvideo]
    · simp [haudio, hvideo]

instance : DecidablePred IsAudio :=
  fun d => decidable_of_iff _ d.kind_track_eq_audio_iff

/-- The first audio entry that has a number. -/
def firstAudio? (d : Document) : Option Document :=
  d.entries.find? fun e => decide e.IsAudio && e.track.number.isSome

theorem audioNumber?_track (d : Document) :
    d.track.audioNumber? = if d.IsAudio then d.track.number else none :=
  if_congr d.kind_track_eq_audio_iff rfl rfl

theorem isSome_audioNumber?_track (d : Document) :
    d.track.audioNumber?.isSome = (decide d.IsAudio && d.track.number.isSome) := by
  rw [audioNumber?_track]
  by_cases h : d.IsAudio
  · rw [if_pos h, decide_eq_true h, Bool.true_and]
  · rw [if_neg h, decide_eq_false h, Bool.false_and]
    rfl

theorem find?_tracks (d : Document) :
    (d.entries.map track).find? (fun t => t.audioNumber?.isSome) = d.firstAudio?.map track := by
  rw [List.find?_map, firstAudio?]
  congr 2
  funext e
  exact isSome_audioNumber?_track e

/-- The number of the first audio entry is the one that counts. -/
theorem firstAudio_tracks (d : Document) :
    Recording.firstAudio (d.entries.map track) = d.firstAudio?.bind fun e => e.track.number := by
  rw [Recording.firstAudio_eq, find?_tracks]
  cases he : d.firstAudio? with
  | none => rfl
  | some e =>
    have haudio : e.IsAudio := by
      have hsome := List.find?_some he
      rw [Bool.and_eq_true, decide_eq_true_iff] at hsome
      exact hsome.1
    rw [Option.map_some, Option.bind_some, audioNumber?_track, if_pos haudio, Option.bind_some]

end Document

end Transmux
