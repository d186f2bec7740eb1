import Transmux.Proofs.BlockFindings

/-! The audio track of a recording. It is the first audio track that has a number, and once it is
known it alone decides which packets the blocks that follow add to the stream. -/

namespace Transmux

namespace Track

def audioNumber? (t : Track) : Option Nat :=
  if t.kind = .audio then t.number else none

end Track

namespace Recording

/-- Number of the first audio track that has one. -/
def firstAudio (tracks : List Track) : Option Nat :=
  tracks.findSome? Track.audioNumber?

/-- The number that counts is that of the first audio track which has one. -/
theorem firstAudio_eq (tracks : List Track) :
    firstAudio tracks = (tracks.find? fun t => t.audioNumber?.isSome).bind Track.audioNumber? := by
  induction tracks with
  | nil => rfl
  | cons t tracks ih =>
    rw [firstAudio, List.findSome?_cons, List.find?_cons]
    cases h : t.audioNumber? with
    | some n => simp [h]
    | none => exact ih

end Recording

namespace Context

variable (filter : Bool) {c c' : Context} {n : Nat}

theorem audioTrack_readLeaf (c : Context) (e : Element) (data : Bytes) :
    (c.readLeaf e data).audioTrack = c.audioTrack := by
  cases e with
  | codecPrivate =>
    simp only [readLeaf]
    split <;> rfl
  | _ => rfl

theorem audioTrack_closeEntry (c : Context) (t : Track) :
    (c.closeEntry t).audioTrack = c.audioTrack.or t.audioNumber? := by
  rw [closeEntry, Track.audioNumber?]
  by_cases hkind : t.kind = .audio
  · cases c.audioTrack <;> simp [hkind]
  · simp [hkind]

theorem track?_findings_leave (c : Context) (id : ElementId) :
    (c.findings filter (.leave id)).filterMap Recording.track?
      = if Element.ofId? id = some .trackEntry then c.entry.toList else [] := by
  rw [findings]
  split
  · cases hentry : c.entry with
    | none => rfl
    | some t =>
      rw [Option.elim_some, List.filterMap_append]
      cases c.selects t <;> rfl
  · rfl

theorem audioTrack_after (c : Context) (e : Event) :
    (c.after e).audioTrack
      = c.audioTrack.or
        (Recording.firstAudio ((c.findings filter e).filterMap Recording.track?)) := by
  cases e with
  | enter id place =>
    have hsame : (c.after (.enter id place)).audioTrack = c.audioTrack := by
      rw [after]
      split <;> rfl
    rw [hsame]
    exact (Option.or_none).symm
  | stopped issue => exact (Option.or_none).symm
  | leaf id place data =>
    have hnone : (c.findings filter (.leaf id place data)).filterMap Recording.track? = [] := by
      rw [findings_leaf]
      split <;> rfl
    have hsame : (c.after (.leaf id place data)).audioTrack = c.audioTrack := by
      cases hid : Element.ofId? id with
      | none => simp [after, hid]
      | some e => simp [after, hid, audioTrack_readLeaf]
    rw [hnone, hsame]
    exact (Option.or_none).symm
  | leave id =>
    rw [track?_findings_leave, after]
    split
    · cases hentry : c.entry with
      | none => exact (Option.or_none).symm
      | some t =>
        rw [Option.elim_some, audioTrack_closeEntry]
        simp [Recording.firstAudio]
    · exact (Option.or_none).symm

theorem afterAll_append (c : Context) (a b : List Event) :
    c.afterAll (a ++ b) = (c.afterAll a).afterAll b :=
  List.foldl_append

/-- The first audio track that has a number is the one that counts. -/
theorem audioTrack_afterAll (c : Context) (events : List Event) :
    (c.afterAll events).audioTrack
      = c.audioTrack.or
        (Recording.firstAudio ((c.tells filter events).filterMap Recording.track?)) := by
  induction events generalizing c with
  | nil => exact (Option.or_none).symm
  | cons e events ih =>
    have hstep := ih (c.after e)
    rw [audioTrack_after filter c e] at hstep
    rw [tells, List.filterMap_append, Recording.firstAudio, List.findSome?_append,
      ← Option.or_assoc]
    exact hstep

theorem audioTrack_afterAll_of_some (h : c.audioTrack = some n) (events : List Event) :
    (c.afterAll events).audioTrack = some n := by
  rw [audioTrack_afterAll false, h, Option.some_or]

/-- What else is known of a recording does not matter to its packets. -/
theorem packets_congr (h : c.audioTrack = some n) (h' : c'.audioTrack = some n)
    (events : List Event) : c.packets filter events = c'.packets filter events := by
  induction events generalizing c c' with
  | nil => rfl
  | cons e events ih =>
    -- a block is dropped by the number of its track alone
    have hdrops : c.drops filter = c'.drops filter := by
      funext track
      rw [drops, h, drops, h']
    have hfirst : (c.findings filter e).filterMap Recording.frame?
        = (c'.findings filter e).filterMap Recording.frame? := by
      cases e with
      | leaf id place data =>
        rw [findings_leaf, findings_leaf, fate, fate, hdrops]
      | _ => rw [frame?_findings_of_not_leaf _ _ rfl, frame?_findings_of_not_leaf _ _ rfl]
    have hafter : (c.after e).audioTrack = some n := audioTrack_afterAll_of_some h [e]
    have hafter' : (c'.after e).audioTrack = some n := audioTrack_afterAll_of_some h' [e]
    rw [packets_cons, packets_cons, hfirst, ih hafter hafter']

end Context

theorem Recording.audioTrack_ofEvents (filter : Bool) (events : List Event) :
    (ofEvents filter events).context.audioTrack = firstAudio (ofEvents filter events).tracks := by
  rw [ofEvents_eq, tracks, Context.audioTrack_afterAll filter]
  exact Option.none_or

end Transmux
