import Transmux.Ebml.Event
import Transmux.Binary64
import Transmux.Text.Utf8
import Transmux.Recording.Block
import Transmux.Recording.Track

/-! What the events of a recording tell. A `Context` holds what is known of the stream so far; it
decides what becomes of each block, and every fact worth keeping is a `Finding`. -/

namespace Transmux

/-- What is known of a recording after some of its events. -/
structure Context where
  channels : Nat := 1
  /-- Samples per second, 48000 until a recording tells otherwise. -/
  sampleRate : Binary64 := ⟨0x40E7700000000000⟩
  codecPrivate : Option Bytes := none
  /-- Number of the first audio track that has one. -/
  audioTrack : Option Nat := none
  /-- The track entry that is being read. -/
  entry : Option Track := none
deriving DecidableEq

/-- What becomes of a block. -/
inductive Fate where
  | undecodable
  | skipped (block : Block)
  | empty (block : Block)
  | kept (block : Block)
deriving DecidableEq

inductive Finding where
  | issue (issue : Issue)
  /-- The track whose blocks are wanted. -/
  | selected (number : Nat) (codec : Option String)
  | track (track : Track)
  | block (place : Extent) (fate : Fate)
deriving DecidableEq

namespace Context

/-- The audio track whose number the end of this entry makes known. -/
def selects (c : Context) (t : Track) : Option Nat :=
  if t.kind = .audio ∧ c.audioTrack = none then t.number else none

def closeEntry (c : Context) (t : Track) : Context :=
  if t.kind = .audio ∧ c.audioTrack = none then
    { c with
      entry := none
      audioTrack := t.number
      codecPrivate := t.codecPrivate.or c.codecPrivate }
  else { c with entry := none }

/-- Changes the entry that is being read, if there is one. -/
def describe (c : Context) (f : Track → Track) : Context :=
  { c with entry := c.entry.map f }

def readLeaf (c : Context) (element : Element) (data : Bytes) : Context :=
  match element with
  | .channels => { c with channels := min (Bytes.word data) (UInt32.size - 1) }
  | .samplingFrequency => { c with sampleRate := (Binary64.ofBytes? data).getD c.sampleRate }
  | .codecPrivate =>
    let c := c.describe fun t => { t with codecPrivate := some data }
    if c.audioTrack = none then { c with codecPrivate := some data } else c
  | .trackNumber => c.describe fun t => { t with number := some (Bytes.word data) }
  | .trackType => c.describe fun t => { t with type := some (Bytes.word data) }
  | .codecId =>
    c.describe fun t => { t with codec := some (Track.codecName (Utf8.decodeLossy data)) }
  | _ => c

/-- What is known after one more event. -/
def after (c : Context) : Event → Context
  | .enter id _ => if Element.ofId? id = some .trackEntry then { c with entry := some {} } else c
  | .leave id =>
    if Element.ofId? id = some .trackEntry then c.entry.elim c c.closeEntry else c
  | .leaf id _ data => (Element.ofId? id).elim c fun e => c.readLeaf e data
  | .stopped _ => c

/-- Whether a filter on the audio track drops the blocks of a track. -/
def drops (c : Context) (filter : Bool) (track : Nat) : Bool :=
  filter && c.audioTrack.any fun audio => track != audio

def fate (c : Context) (filter : Bool) (payload : Bytes) : Fate :=
  match Block.read? payload with
  | none => .undecodable
  | some b =>
    if c.drops filter b.track then .skipped b
    else if b.data.isEmpty then .empty b
    else .kept b

/-- What one event tells, given what is known before it. -/
def findings (c : Context) (filter : Bool) : Event → List Finding
  | .enter _ _ => []
  | .leave id =>
    if Element.ofId? id = some .trackEntry then
      c.entry.elim [] fun t =>
        ((c.selects t).map fun n => Finding.selected n t.codec).toList ++ [.track t]
    else []
  | .leaf id place data =>
    match Element.ofId? id with
    | some .simpleBlock | some .block => [.block place (c.fate filter data)]
    | _ => []
  | .stopped issue => [.issue issue]

end Context

end Transmux
