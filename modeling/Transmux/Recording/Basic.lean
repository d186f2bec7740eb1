import Transmux.Recording.Finding

/-! A recording as read from its bytes: the stream parameters and, in document order, everything
found on the way. The lists and counts a caller wants are views of the findings. -/

namespace Transmux

structure Recording where
  /-- What is known at the end. -/
  context : Context
  findings : List Finding
deriving DecidableEq

namespace Recording

/-- Adds one event to a recording whose findings stand last first. -/
def add (filter : Bool) (r : Recording) (e : Event) : Recording :=
  ⟨r.context.after e, (r.context.findings filter e).reverse ++ r.findings⟩

def ofEvents (filter : Bool) (events : List Event) : Recording :=
  let r := events.foldl (add filter) ⟨{}, []⟩
  { r with findings := r.findings.reverse }

/-- Reads a recording. With `filter`, blocks of other tracks are left out once the audio track is
known. -/
def ofBytes (filter : Bool) (bytes : Bytes) : Recording :=
  ofEvents filter (Event.ofBytes bytes)

def frame? : Finding → Option Bytes
  | .block _ (.kept b) => some b.data
  | _ => none

/-- The packets of the stream in document order. -/
def frames (r : Recording) : List Bytes :=
  r.findings.filterMap frame?

def track? : Finding → Option Track
  | .track t => some t
  | _ => none

def tracks (r : Recording) : List Track :=
  r.findings.filterMap track?

def issue? : Finding → Option Issue
  | .issue i => some i
  | _ => none

def issues (r : Recording) : List Issue :=
  r.findings.filterMap issue?

def isSkipped : Finding → Bool
  | .block _ (.skipped _) => true
  | _ => false

/-- Blocks left out because they belong to another track. -/
def skippedBlocks (r : Recording) : Nat :=
  r.findings.countP isSkipped

def isLaced : Finding → Bool
  | .block _ (.kept b) | .block _ (.empty b) => b.lacing != .none
  | _ => false

/-- Blocks of the stream that carry a lacing mode, which is not undone. -/
def lacedBlocks (r : Recording) : Nat :=
  r.findings.countP isLaced

end Recording

end Transmux
