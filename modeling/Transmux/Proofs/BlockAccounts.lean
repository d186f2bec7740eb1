import Transmux.Proofs.TrackFilter

/-! Every block element that a walk comes to is accounted for. It cannot be decoded, or it is
skipped, or it is empty, or its packet is kept; the packets and the counts of a recording are those
of a walk that updates them block by block. -/

namespace Transmux

namespace Block

/-- The two bits for a lacing mode, if the payload has flags to hold them. -/
def lacingBits (payload : Bytes) : UInt8 :=
  match Vint.read? payload with
  | none => 0
  | some track => payload[track.width + 2]?.elim 0 fun flags => flags &&& 0x06

theorem ofFlags_eq_none_iff (flags : UInt8) :
    LacingMode.ofFlags flags = .none ↔ flags &&& 0x06 = 0 := by
  have hbits : ∀ n : Fin 256, n.val &&& 6 = 0 ↔ n.val / 2 % 4 = 0 := by decide +kernel
  have hmode : LacingMode.ofFlags flags = .none ↔ flags.toNat / 2 % 4 = 0 := by
    rw [LacingMode.ofFlags]
    split <;> simp_all
  rw [hmode, ← hbits ⟨flags.toNat, flags.toNat_lt⟩, ← UInt8.toNat_inj]
  rfl

theorem lacing_eq_none_iff {payload : Bytes} {b : Block} (h : read? payload = some b) :
    b.lacing = .none ↔ lacingBits payload = 0 := by
  obtain ⟨track, flags, htrack, hrest, -, hlacing⟩ := read?_eq_some_iff.1 h
  have hflags : payload[track.width + 2]? = some flags := by
    rw [← List.head?_drop, hrest]
    rfl
  rw [← hlacing, ofFlags_eq_none_iff, lacingBits, htrack]
  simp only [hflags, Option.elim_some]

end Block

/-- The place and the payload of a block element. -/
def Event.block? : Event → Option (Extent × Bytes)
  | .leaf id place data => if id.isBlock then some (place, data) else none
  | _ => none

/-- A block element that a walk comes to, with the number of the audio track if that is known by
then. -/
structure BlockElement where
  place : Extent
  payload : Bytes
  audio : Option Nat
deriving DecidableEq

namespace BlockElement

def visit? (e : BlockElement) : Option Visit :=
  (Block.read? e.payload).map (Visit.mk e.audio)

def data (e : BlockElement) : Bytes :=
  e.visit?.elim [] fun v => v.block.data

def isLaced (e : BlockElement) : Bool :=
  Block.lacingBits e.payload != 0

def isUndecodable (e : BlockElement) : Bool :=
  e.visit?.isNone

variable (filter : Bool)

/-- Whether the block is of another track than the audio track that is filtered for. -/
def isSkipped (e : BlockElement) : Bool :=
  e.visit?.any fun v => v.isDropped filter

def isEmpty (e : BlockElement) : Bool :=
  e.visit?.any fun v => !v.isDropped filter && v.block.data.isEmpty

def isKept (e : BlockElement) : Bool :=
  e.visit?.any fun v => !v.isDropped filter && !v.block.data.isEmpty

def packet? (e : BlockElement) : Option Bytes :=
  if e.isKept filter then some e.data else none

/-- Whether the walk counts the block as laced. It does so before it looks at the data. -/
def isCountedLaced (e : BlockElement) : Bool :=
  (e.isKept filter || e.isEmpty filter) && e.isLaced

theorem isLaced_of_visit? {e : BlockElement} {v : Visit} (h : e.visit? = some v) :
    e.isLaced = v.isLaced := by
  obtain ⟨b, hread, rfl⟩ := Option.map_eq_some_iff.1 h
  rw [Bool.eq_iff_iff, isLaced, Visit.isLaced, bne_iff_ne, bne_iff_ne, ne_eq, ne_eq,
    Block.lacing_eq_none_iff hread]

theorem count_fates (e : BlockElement) :
    [e.isUndecodable, e.isSkipped filter, e.isEmpty filter, e.isKept filter].count true = 1 := by
  rw [isUndecodable, isSkipped, isEmpty, isKept]
  cases e.visit? with
  | none => rfl
  | some v =>
    simp only [Option.isNone_some, Option.any_some]
    cases v.isDropped filter <;> cases v.block.data.isEmpty <;> rfl

theorem isEmpty_of_isKept {e : BlockElement} (h : e.isKept filter = true) :
    e.isEmpty filter = false := by
  rw [isKept] at h
  rw [isEmpty]
  cases hvisit : e.visit? with
  | none => rfl
  | some v =>
    rw [hvisit, Option.any_some, Bool.and_eq_true] at h
    rw [Option.any_some, (Bool.not_eq_true' _).mp h.2, Bool.and_false]

theorem isCountedLaced_eq (e : BlockElement) :
    e.isCountedLaced filter = e.visit?.any fun v => !v.isDropped filter && v.isLaced := by
  rw [isCountedLaced, isKept, isEmpty]
  cases h : e.visit? with
  | none => rfl
  | some v =>
    rw [isLaced_of_visit? h]
    simp only [Option.any_some]
    cases v.isDropped filter <;> cases v.block.data.isEmpty <;> rfl

variable (es : List BlockElement)

theorem filterMap_packet? :
    es.filterMap (packet? filter) = (es.filter (isKept filter)).map data := by
  rw [← List.filterMap_eq_map, List.filterMap_filter]
  rfl

theorem countP_isCountedLaced :
    es.countP (isCountedLaced filter)
      = (es.filter (isKept filter)).countP isLaced
        + (es.filter (isEmpty filter)).countP isLaced := by
  have hkept (e : BlockElement) :
      (e.isCountedLaced filter && e.isKept filter) = (e.isLaced && e.isKept filter) := by
    rw [isCountedLaced]
    cases e.isKept filter <;> simp
  have hempty (e : BlockElement) :
      (e.isCountedLaced filter && !e.isKept filter) = (e.isLaced && e.isEmpty filter) := by
    rw [isCountedLaced]
    cases h : e.isKept filter with
    | true => simp [isEmpty_of_isKept filter h]
    | false => simp [Bool.and_comm]
  rw [List.countP_eq_countP_filter_add es _ (isKept filter)]
  simp only [List.countP_filter, hkept, hempty]

end BlockElement

/-- What a walk keeps of the blocks: the packets, and how many blocks it skipped and found laced. -/
structure Tally where
  frames : List Bytes := []
  skippedBlocks : Nat := 0
  lacedBlocks : Nat := 0
deriving DecidableEq

namespace Tally

variable (filter : Bool)

/-- Adds one block. What cannot be decoded and what is skipped is left at once. -/
def add (t : Tally) (e : BlockElement) : Tally :=
  match e.visit? with
  | none => t
  | some v =>
    if v.isDropped filter then { t with skippedBlocks := t.skippedBlocks + 1 }
    else
      let t := if v.isLaced then { t with lacedBlocks := t.lacedBlocks + 1 } else t
      if v.block.data.isEmpty then t else { t with frames := t.frames ++ [v.block.data] }

def ofElements (es : List BlockElement) : Tally :=
  es.foldl (add filter) {}

theorem add_eq (t : Tally) (e : BlockElement) :
    t.add filter e = ⟨t.frames ++ (e.packet? filter).toList,
      t.skippedBlocks + (e.isSkipped filter).toNat,
      t.lacedBlocks + (e.isCountedLaced filter).toNat⟩ := by
  rw [add, BlockElement.packet?, BlockElement.isKept, BlockElement.isSkipped,
    BlockElement.isCountedLaced_eq, BlockElement.data]
  cases e.visit? with
  | none => simp
  | some v =>
    cases hdrop : v.isDropped filter with
    | true => simp [hdrop]
    | false => cases hlaced : v.isLaced <;> cases hempty : v.block.data.isEmpty <;> simp [*]

/-- The packets and counts of a walk are sums over the blocks it comes to. -/
theorem foldl_add (t : Tally) (es : List BlockElement) :
    es.foldl (add filter) t = ⟨t.frames ++ es.filterMap (BlockElement.packet? filter),
      t.skippedBlocks + es.countP (BlockElement.isSkipped filter),
      t.lacedBlocks + es.countP (BlockElement.isCountedLaced filter)⟩ := by
  induction es generalizing t with
  | nil => simp
  | cons e es ih =>
    have hframes : (e.packet? filter).toList ++ es.filterMap (BlockElement.packet? filter)
        = (e :: es).filterMap (BlockElement.packet? filter) := by
      cases h : e.packet? filter <;> simp [h]
    have hcount (p : BlockElement → Bool) : (p e).toNat + es.countP p = (e :: es).countP p := by
      rw [List.countP_cons, Nat.add_comm]
      cases p e <;> rfl
    rw [List.foldl_cons, ih, add_eq, List.append_assoc, hframes, Nat.add_assoc, hcount,
      Nat.add_assoc, hcount]

theorem ofElements_eq (es : List BlockElement) :
    ofElements filter es = ⟨es.filterMap (BlockElement.packet? filter),
      es.countP (BlockElement.isSkipped filter),
      es.countP (BlockElement.isCountedLaced filter)⟩ := by
  rw [ofElements, foldl_add, List.nil_append, Nat.zero_add, Nat.zero_add]

end Tally

namespace Context

def blockElement? (c : Context) (e : Event) : Option BlockElement :=
  e.block?.map fun (place, payload) => ⟨place, payload, c.audioTrack⟩

/-- The block elements of a walk in the order in which it comes to them. -/
def blockElements (c : Context) : List Event → List BlockElement
  | [] => []
  | e :: events => (c.blockElement? e).toList ++ (c.after e).blockElements events

theorem visit?_eq (c : Context) (e : Event) :
    c.visit? e = (c.blockElement? e).bind BlockElement.visit? := by
  cases e with
  | leaf id place data =>
    rw [visit?, blockElement?, Event.block?]
    split <;> rfl
  | _ => rfl

theorem visits_eq (c : Context) (events : List Event) :
    c.visits events = (c.blockElements events).filterMap BlockElement.visit? := by
  induction events generalizing c with
  | nil => rfl
  | cons e events ih =>
    rw [visits, blockElements, List.filterMap_append, ih, visit?_eq]
    cases c.blockElement? e with
    | none => rfl
    | some b => cases h : b.visit? <;> simp [h]

/-- No block element is left out, and none is told twice. -/
theorem map_blockElements (c : Context) (events : List Event) :
    (c.blockElements events).map (fun e => (e.place, e.payload))
      = events.filterMap Event.block? := by
  induction events generalizing c with
  | nil => rfl
  | cons e events ih =>
    rw [blockElements, List.map_append, ih, blockElement?]
    cases h : e.block? <;> simp [h]

/-- What is known of the audio track is what the events before an element tell. -/
theorem mem_blockElements {c : Context} {events : List Event} {b : BlockElement}
    (h : b ∈ c.blockElements events) :
    ∃ before e after, events = before ++ e :: after ∧ e.block? = some (b.place, b.payload)
      ∧ b.audio = (c.afterAll before).audioTrack := by
  induction events generalizing c with
  | nil => cases h
  | cons e events ih =>
    rcases List.mem_append.1 h with hfirst | hrest
    · obtain ⟨_, hblock, rfl⟩ := Option.map_eq_some_iff.1 (Option.mem_toList.1 hfirst)
      exact ⟨[], e, events, rfl, hblock, rfl⟩
    · obtain ⟨before, e', after, rfl, hblock, haudio⟩ := ih hrest
      exact ⟨e :: before, e', after, rfl, hblock, haudio⟩

end Context

namespace Recording

def blockElements (bytes : Bytes) : List BlockElement :=
  ({} : Context).blockElements (Event.ofBytes bytes)

variable (filter : Bool) (bytes : Bytes)

theorem visits_eq_filterMap : visits bytes = (blockElements bytes).filterMap BlockElement.visit? :=
  Context.visits_eq ..

theorem countP_visits (p : Visit → Bool) :
    (visits bytes).countP p = (blockElements bytes).countP fun e => e.visit?.any p := by
  rw [visits_eq_filterMap, List.countP_filterMap]
  congr 1
  funext e
  cases e.visit? <;> rfl

/-- The views of a recording are what a walk adds up block by block. -/
theorem tally_ofBytes :
    Tally.ofElements filter (blockElements bytes)
      = ⟨(ofBytes filter bytes).frames, (ofBytes filter bytes).skippedBlocks,
        (ofBytes filter bytes).lacedBlocks⟩ := by
  have hframe (e : BlockElement) : (e.visit?.bind fun v =>
      if !v.isDropped filter then v.frame? else none) = e.packet? filter := by
    rw [BlockElement.packet?, BlockElement.isKept, BlockElement.data]
    cases e.visit? with
    | none => rfl
    | some v =>
      simp only [Option.bind_some, Option.any_some, Option.elim_some, Visit.frame?]
      by_cases hdrop : v.isDropped filter = true
      · simp [hdrop]
      · by_cases hempty : v.block.data = [] <;> simp [hdrop, hempty]
  rw [Tally.ofElements_eq, skippedBlocks_eq_visits, lacedBlocks_eq_visits, countP_visits,
    countP_visits, frames_eq_visits, visits_eq_filterMap, List.filterMap_filter,
    List.filterMap_filterMap]
  simp only [hframe, ← BlockElement.isCountedLaced_eq]
  rfl

/-- Each block element of an input is counted for what becomes of it. The packets are those of the
blocks that are kept, in order; but a block that is empty is counted among the laced ones if it has
a lacing mode, though no packet comes of it. -/
theorem blocks_accounted (filter : Bool) (input : Bytes) :
    let r := ofBytes filter input
    let es := blockElements input
    let kept := es.filter (BlockElement.isKept filter)
    let empty := es.filter (BlockElement.isEmpty filter)
    es.map (fun e => (e.place, e.payload)) = (Event.ofBytes input).filterMap Event.block?
      ∧ (∀ e ∈ es, ∃ before event after, Event.ofBytes input = before ++ event :: after
        ∧ event.block? = some (e.place, e.payload)
        ∧ e.audio = firstAudio (ofEvents filter before).tracks)
      ∧ (∀ e ∈ es,
        [e.isUndecodable, e.isSkipped filter, e.isEmpty filter, e.isKept filter].count true = 1)
      ∧ r.frames = kept.map BlockElement.data
      ∧ r.skippedBlocks = es.countP (BlockElement.isSkipped filter)
      ∧ r.lacedBlocks = kept.countP BlockElement.isLaced + empty.countP BlockElement.isLaced
      ∧ (r.lacedBlocks = kept.countP BlockElement.isLaced ↔ ∀ e ∈ empty, e.isLaced = false)
      ∧ Tally.ofElements filter es = ⟨r.frames, r.skippedBlocks, r.lacedBlocks⟩ := by
  intro r es kept empty
  have htally := tally_ofBytes filter input
  have hsums := (Tally.ofElements_eq filter es).symm.trans htally
  rw [BlockElement.filterMap_packet?, BlockElement.countP_isCountedLaced] at hsums
  obtain ⟨hframes, hskipped, hlaced⟩ := Tally.mk.inj hsums
  refine ⟨Context.map_blockElements .., fun e he => ?_, fun e _ => e.count_fates filter,
    hframes.symm, hskipped.symm, hlaced.symm, ?_, htally⟩
  · obtain ⟨before, event, after, hevents, hblock, haudio⟩ := Context.mem_blockElements he
    refine ⟨before, event, after, hevents, hblock, ?_⟩
    rw [haudio, ← audioTrack_ofEvents, ofEvents_eq]
  · have hnone : empty.countP BlockElement.isLaced = 0 ↔ ∀ e ∈ empty, e.isLaced = false := by
      simp [List.countP_eq_zero]
    rw [← hnone, show r.lacedBlocks = _ from hlaced.symm]
    exact Nat.add_eq_left

/-- Four blocks behind a track 1 of audio: one too short for its header, one of track 2, and two of
track 1 with a lacing mode, the first of which is empty. -/
def fourBlocks : Bytes :=
  [0x1A, 0x45, 0xDF, 0xA3, 0x87, 0x42, 0x82, 0x84, 0x77, 0x65, 0x62, 0x6D,
    0x18, 0x53, 0x80, 0x67, 0xA9, 0x16, 0x54, 0xAE, 0x6B, 0x88,
    0xAE, 0x86, 0xD7, 0x81, 0x01, 0x83, 0x81, 0x02,
    0x1F, 0x43, 0xB6, 0x75, 0x97, 0xA3, 0x81, 0x81, 0xA3, 0x85, 0x82, 0x00, 0x00, 0x80, 0xFC,
    0xA3, 0x84, 0x81, 0x00, 0x00, 0x06, 0xA3, 0x85, 0x81, 0x00, 0x00, 0x06, 0xFC]

theorem blocks_accounted_fourBlocks :
    let emptyBlock : BlockElement := ⟨⟨45, 2, 4⟩, [0x81, 0x00, 0x00, 0x06], some 1⟩
    emptyBlock ∈ blockElements fourBlocks
      ∧ [emptyBlock.isUndecodable, emptyBlock.isSkipped true, emptyBlock.isEmpty true,
        emptyBlock.isKept true].count true = 1
      ∧ (ofBytes true fourBlocks).frames = [[0xFC]]
      ∧ (ofBytes true fourBlocks).skippedBlocks = 1 := by
  intro emptyBlock
  obtain ⟨-, -, hone, hframes, hskipped, -⟩ := blocks_accounted true fourBlocks
  have hmem : emptyBlock ∈ blockElements fourBlocks := by decide +kernel
  exact ⟨hmem, hone emptyBlock hmem, hframes.trans (by decide +kernel),
    hskipped.trans (by decide +kernel)⟩

/-- The empty block is counted as laced, beside the one block with a lacing mode that is kept. -/
theorem empty_block_counted :
    let kept := (blockElements fourBlocks).filter (BlockElement.isKept true)
    (ofBytes true fourBlocks).frames = kept.map BlockElement.data
      ∧ kept.countP BlockElement.isLaced = 1
      ∧ (ofBytes true fourBlocks).lacedBlocks = 2 :=
  ⟨by decide +kernel, by decide +kernel, by decide +kernel⟩

end Recording

end Transmux
