import Transmux.Proofs.AudioTrack

/-! The filter on the audio track. With and without it a walk visits the same blocks and learns the
same of the stream; the filter only deletes the blocks that are foreign when they are visited. -/

namespace Transmux

/-- A decodable block, with the audio track known when it is visited. -/
structure Visit where
  audio : Option Nat
  block : Block
deriving DecidableEq

namespace Visit

/-- Whether the audio track is known and the block belongs to another one. -/
def isForeign (v : Visit) : Bool :=
  v.audio.any fun audio => v.block.track != audio

def frame? (v : Visit) : Option Bytes :=
  if v.block.data.isEmpty then none else some v.block.data

def isLaced (v : Visit) : Bool :=
  v.block.lacing != .none

def isDropped (filter : Bool) (v : Visit) : Bool :=
  filter && v.isForeign

def fate (filter : Bool) (v : Visit) : Fate :=
  if v.isDropped filter then .skipped v.block
  else if v.block.data.isEmpty then .empty v.block
  else .kept v.block

end Visit

namespace Fate

def decoded? : Fate → Option Fate
  | undecodable => none
  | fate => some fate

def frame? : Fate → Option Bytes
  | kept b => some b.data
  | _ => none

def isSkipped : Fate → Bool
  | skipped _ => true
  | _ => false

def isLaced : Fate → Bool
  | kept b | empty b => b.lacing != .none
  | _ => false

end Fate

namespace Visit

variable (filter : Bool) (v : Visit)

theorem frame?_fate :
    (v.fate filter).frame? = if v.isDropped filter then none else v.frame? := by
  rw [fate, frame?]
  by_cases hdrop : v.isDropped filter = true
  · rw [if_pos hdrop, if_pos hdrop]
    rfl
  · rw [if_neg hdrop, if_neg hdrop]
    split <;> rfl

theorem isSkipped_fate : (v.fate filter).isSkipped = v.isDropped filter := by
  rw [fate]
  by_cases hdrop : v.isDropped filter = true
  · rw [if_pos hdrop, hdrop]
    rfl
  · rw [if_neg hdrop, Bool.eq_false_iff.2 hdrop]
    split <;> rfl

theorem isLaced_fate : (v.fate filter).isLaced = (!v.isDropped filter && v.isLaced) := by
  rw [fate, isLaced]
  by_cases hdrop : v.isDropped filter = true
  · rw [if_pos hdrop, hdrop]
    rfl
  · rw [if_neg hdrop, Bool.eq_false_iff.2 hdrop]
    split <;> rfl

end Visit

def Finding.fate? : Finding → Option Fate
  | .block _ fate => fate.decoded?
  | _ => none

namespace Recording

theorem frame?_eq (f : Finding) : frame? f = f.fate?.bind Fate.frame? := by
  cases f with
  | block place fate => cases fate <;> rfl
  | _ => rfl

theorem isSkipped_eq (f : Finding) : isSkipped f = f.fate?.any Fate.isSkipped := by
  cases f with
  | block place fate => cases fate <;> rfl
  | _ => rfl

theorem isLaced_eq (f : Finding) : isLaced f = f.fate?.any Fate.isLaced := by
  cases f with
  | block place fate => cases fate <;> rfl
  | _ => rfl

end Recording

namespace Context

def visit? (c : Context) : Event → Option Visit
  | .leaf id _ data => if id.isBlock then (Block.read? data).map (Visit.mk c.audioTrack) else none
  | _ => none

/-- The decodable blocks of a walk in the order in which they are visited. -/
def visits (c : Context) : List Event → List Visit
  | [] => []
  | e :: events => (c.visit? e).toList ++ (c.after e).visits events

variable (filter : Bool) (c : Context)

theorem decoded?_fate (payload : Bytes) :
    (c.fate filter payload).decoded?
      = (Block.read? payload).map fun b => Visit.fate filter ⟨c.audioTrack, b⟩ := by
  rw [fate]
  cases Block.read? payload with
  | none => rfl
  | some b =>
    have hdrops : c.drops filter b.track = Visit.isDropped filter ⟨c.audioTrack, b⟩ := rfl
    simp only [Option.map_some, Visit.fate, hdrops]
    split
    · rfl
    · split <;> rfl

theorem fate?_findings (e : Event) :
    (c.findings filter e).filterMap Finding.fate?
      = ((c.visit? e).map (Visit.fate filter)).toList := by
  cases e with
  | enter => rfl
  | stopped => rfl
  | leave id =>
    refine List.filterMap_eq_nil_iff.2 fun f hf => ?_
    rcases mem_findings_leave filter c hf with ⟨_, _, rfl⟩ | ⟨_, rfl⟩ <;> rfl
  | leaf id place data =>
    rw [findings_leaf, visit?]
    split
    · have hdecoded := decoded?_fate filter c data
      rw [List.filterMap_cons, List.filterMap_nil, Option.map_map]
      simp only [Finding.fate?, hdecoded]
      cases Block.read? data <;> rfl
    · rfl

/-- Every decodable block has its fate, with or without a filter. -/
theorem fate?_tells (events : List Event) :
    (c.tells filter events).filterMap Finding.fate?
      = (c.visits events).map (Visit.fate filter) := by
  induction events generalizing c with
  | nil => rfl
  | cons e events ih =>
    rw [tells, List.filterMap_append, fate?_findings, ih, visits, List.map_append,
      Option.toList_map]

theorem track?_findings (e : Event) :
    (c.findings filter e).filterMap Recording.track?
      = (c.findings false e).filterMap Recording.track? := by
  cases e with
  | enter => rfl
  | stopped => rfl
  | leave id => rfl
  | leaf id place data =>
    rw [findings_leaf, findings_leaf]
    split <;> rfl

theorem track?_tells (events : List Event) :
    (c.tells filter events).filterMap Recording.track?
      = (c.tells false events).filterMap Recording.track? := by
  induction events generalizing c with
  | nil => rfl
  | cons e events ih =>
    rw [tells, tells, List.filterMap_append, List.filterMap_append, track?_findings, ih]

end Context

namespace Recording

def visits (bytes : Bytes) : List Visit :=
  ({} : Context).visits (Event.ofBytes bytes)

variable (filter : Bool) (bytes : Bytes)

theorem fate?_ofBytes :
    (ofBytes filter bytes).findings.filterMap Finding.fate?
      = (visits bytes).map (Visit.fate filter) := by
  rw [ofBytes, ofEvents_eq]
  exact Context.fate?_tells ..

/-- A count of findings that looks at decodable blocks alone is a count of visits. -/
theorem countP_fate? (p : Fate → Bool) :
    (ofBytes filter bytes).findings.countP (fun f => f.fate?.any p)
      = (visits bytes).countP fun v => p (v.fate filter) := by
  have hcount := congrArg (List.countP p) (fate?_ofBytes filter bytes)
  rw [List.countP_filterMap, List.countP_map] at hcount
  rw [← Function.comp_def p (Visit.fate filter), ← hcount]
  congr 1
  funext f
  cases f.fate? <;> rfl

theorem frames_eq_visits :
    (ofBytes filter bytes).frames
      = ((visits bytes).filter fun v => !v.isDropped filter).filterMap Visit.frame? := by
  have hframe : frame? = fun f => f.fate?.bind Fate.frame? := funext frame?_eq
  rw [frames, hframe, ← List.filterMap_filterMap, fate?_ofBytes, List.filterMap_map,
    List.filterMap_filter]
  congr 1
  funext v
  rw [Function.comp_apply, Visit.frame?_fate]
  cases v.isDropped filter <;> rfl

theorem skippedBlocks_eq_visits :
    (ofBytes filter bytes).skippedBlocks = (visits bytes).countP (Visit.isDropped filter) := by
  have hskipped : isSkipped = fun f => f.fate?.any Fate.isSkipped := funext isSkipped_eq
  rw [skippedBlocks, hskipped, countP_fate?]
  simp only [Visit.isSkipped_fate]

theorem lacedBlocks_eq_visits :
    (ofBytes filter bytes).lacedBlocks
      = (visits bytes).countP fun v => !v.isDropped filter && v.isLaced := by
  have hlaced : isLaced = fun f => f.fate?.any Fate.isLaced := funext isLaced_eq
  rw [lacedBlocks, hlaced, countP_fate?]
  simp only [Visit.isLaced_fate]

theorem tracks_ofBytes : (ofBytes filter bytes).tracks = (ofBytes false bytes).tracks := by
  rw [ofBytes, ofBytes, ofEvents_eq, ofEvents_eq]
  exact Context.track?_tells ..

theorem issues_ofBytes : (ofBytes filter bytes).issues = (ofBytes false bytes).issues := by
  rw [ofBytes, ofBytes, issues_ofEvents, issues_ofEvents]

theorem context_ofBytes : (ofBytes filter bytes).context = (ofBytes false bytes).context := by
  rw [ofBytes, ofBytes, ofEvents_eq, ofEvents_eq]

theorem frames_unfiltered :
    (ofBytes false bytes).frames = (visits bytes).filterMap Visit.frame? := by
  have hkept : ((visits bytes).filter fun v => !v.isDropped false) = visits bytes :=
    List.filter_eq_self.2 fun _ _ => rfl
  exact (frames_eq_visits false bytes).trans (congrArg _ hkept)

theorem frames_filtered :
    (ofBytes true bytes).frames
      = ((visits bytes).filter fun v => !v.isForeign).filterMap Visit.frame? :=
  frames_eq_visits true bytes

theorem skippedBlocks_unfiltered : (ofBytes false bytes).skippedBlocks = 0 := by
  rw [skippedBlocks_eq_visits, List.countP_eq_zero]
  simp [Visit.isDropped]

theorem skippedBlocks_filtered :
    (ofBytes true bytes).skippedBlocks = (visits bytes).countP Visit.isForeign :=
  skippedBlocks_eq_visits true bytes

theorem lacedBlocks_unfiltered :
    (ofBytes false bytes).lacedBlocks = (visits bytes).countP Visit.isLaced :=
  lacedBlocks_eq_visits false bytes

theorem lacedBlocks_filtered :
    (ofBytes true bytes).lacedBlocks
      = (visits bytes).countP fun v => !v.isForeign && v.isLaced :=
  lacedBlocks_eq_visits true bytes

theorem lacedBlocks_filtered_le :
    (ofBytes true bytes).lacedBlocks ≤ (ofBytes false bytes).lacedBlocks := by
  rw [lacedBlocks_filtered, lacedBlocks_unfiltered]
  apply List.countP_mono_left
  simp

theorem lacedBlocks_le_add_skippedBlocks :
    (ofBytes false bytes).lacedBlocks
      ≤ (ofBytes true bytes).lacedBlocks + (ofBytes true bytes).skippedBlocks := by
  rw [lacedBlocks_unfiltered, lacedBlocks_filtered, skippedBlocks_filtered]
  -- a laced block either is foreign or stays
  have hsplit := List.countP_eq_countP_filter_add (visits bytes) Visit.isLaced Visit.isForeign
  have hforeign : ((visits bytes).filter Visit.isForeign).countP Visit.isLaced
      ≤ (visits bytes).countP Visit.isForeign := by
    rw [List.countP_eq_length_filter (p := Visit.isForeign)]
    exact List.countP_le_length
  rw [List.countP_filter (l := visits bytes) (q := fun v => !v.isForeign)] at hsplit
  simp only [Bool.and_comm] at hsplit ⊢
  omega

/-- The filter on the audio track changes nothing but what becomes of the blocks that are foreign
when they are visited: their packets are left out, and they are counted. -/
theorem filtered_recording (bytes : Bytes) :
    let all := ofBytes false bytes
    let own := ofBytes true bytes
    own.context = all.context ∧ own.tracks = all.tracks ∧ own.issues = all.issues
      ∧ all.skippedBlocks = 0
      ∧ all.frames = (visits bytes).filterMap Visit.frame?
      ∧ own.frames = ((visits bytes).filter fun v => !v.isForeign).filterMap Visit.frame?
      ∧ own.frames.Sublist all.frames
      ∧ own.skippedBlocks = (visits bytes).countP Visit.isForeign
      ∧ own.lacedBlocks ≤ all.lacedBlocks
      ∧ all.lacedBlocks ≤ own.lacedBlocks + own.skippedBlocks := by
  intro all own
  have hframes : own.frames.Sublist all.frames := by
    rw [frames_filtered, frames_unfiltered]
    exact (List.filter_sublist).filterMap _
  exact ⟨context_ofBytes true bytes, tracks_ofBytes true bytes, issues_ofBytes true bytes,
    skippedBlocks_unfiltered bytes, frames_unfiltered bytes, frames_filtered bytes, hframes,
    skippedBlocks_filtered bytes, lacedBlocks_filtered_le bytes,
    lacedBlocks_le_add_skippedBlocks bytes⟩

end Recording

end Transmux
