import Transmux.Ebml.Element

/-! A byte string read as a tree of elements, given as the list of events of a depth-first walk.
A walk never fails: where the bytes stop making sense it ends the span of bytes it is in, notes
why, and goes on after the element that holds the span. -/

namespace Transmux

/-- Why the walk of a span ended before the span did. -/
inductive Stop where
  | badId
  | badSize
  | tooDeep
deriving DecidableEq

def Stop.message : Stop → String
  | badId => "invalid element id"
  | badSize => "invalid element size"
  | tooDeep => "elements nested too deep"

/-- A span that ended early, with everything before `offset` read. -/
structure Issue where
  /-- The element that holds the span. -/
  parent : ElementId
  offset : Nat
  reason : Stop
deriving DecidableEq

/-- The id and the size in front of an element's content. -/
structure Header where
  id : ElementId
  /-- Length of the content, if the header tells it. -/
  size : Option Nat
  length : Nat
  length_pos : 0 < length := by omega

namespace Header

def read? (bytes : Bytes) : Except Stop Header :=
  match ElementId.read? bytes with
  | none => .error .badId
  | some id =>
    match Vint.read? (bytes.drop id.width) with
    | none => .error .badSize
    | some size =>
      .ok ⟨id.coded, if size.isUnknown then none else some size.value, id.width + size.width,
        Nat.add_pos_left id.width_pos _⟩

/-- Length of the content when the span has `room` bytes left for it. -/
def contentLength (h : Header) (room : Nat) : Nat :=
  h.size.elim room fun n => min n room

theorem contentLength_le (h : Header) (room : Nat) : h.contentLength room ≤ room := by
  unfold contentLength
  cases h.size
  · exact Nat.le_refl _
  · exact Nat.min_le_right ..

end Header

/-- Where an element lies: its header, and its content right after that. -/
structure Extent where
  offset : Nat
  header : Nat
  content : Nat
deriving DecidableEq

namespace Extent

def contentOffset (e : Extent) : Nat :=
  e.offset + e.header

def stop (e : Extent) : Nat :=
  e.contentOffset + e.content

end Extent

inductive Event where
  | enter (id : ElementId) (place : Extent)
  | leave (id : ElementId)
  | leaf (id : ElementId) (place : Extent) (data : Bytes)
  | stopped (issue : Issue)
deriving DecidableEq

namespace Event

/-- The span of the whole input belongs to no element. -/
def root : ElementId := 0

/-- Masters may stand inside this many others. -/
def maxDepth : Nat := 64

/-- Walks the next `room` bytes at `offset`, children of `parent`, and adds the events to those
`seen`, last first. Ids and sizes are read without regard to the end of the span. -/
def walk (parent : ElementId) (depth : Nat) (bytes : Bytes) (offset room : Nat)
    (seen : List Event) : List Event :=
  if room = 0 then seen
  else
    match Header.read? bytes with
    | .error reason => .stopped ⟨parent, offset, reason⟩ :: seen
    | .ok h =>
      if room < h.length then .stopped ⟨parent, offset, .badSize⟩ :: seen
      else
        let size := h.contentLength (room - h.length)
        let place : Extent := ⟨offset, h.length, size⟩
        let content := bytes.drop h.length
        if h.id.isMaster then
          if maxDepth ≤ depth then .stopped ⟨parent, offset, .tooDeep⟩ :: seen
          else
            let inner := walk h.id (depth + 1) content place.contentOffset size
              (.enter h.id place :: seen)
            walk parent depth (content.drop size) place.stop (room - h.length - size)
              (.leave h.id :: inner)
        else
          walk parent depth (content.drop size) place.stop (room - h.length - size)
            (.leaf h.id place (content.take size) :: seen)
termination_by room
decreasing_by
  all_goals
    have hp := h.length_pos
    have hs := h.contentLength_le (room - h.length)
    omega

/-- The events of a whole input. -/
def ofBytes (bytes : Bytes) : List Event :=
  (walk root 0 bytes 0 bytes.length []).reverse

end Event

end Transmux
